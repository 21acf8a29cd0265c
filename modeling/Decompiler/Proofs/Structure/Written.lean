import Decompiler.Code.Listing
import Decompiler.Proofs.Code.Values
import Decompiler.Proofs.Structure.Arena

/-!
The code of a unit as its statements are written out. A statement is written where the one that names it is, and
the arms of a switch expression where the operand that stands for its value is. In a forest of statements whose
switch expressions stand for one operand each, nothing is written twice and the nesting ends.
-/

namespace Decompiler

namespace Structure

/-- The head of a switch. -/
def head? : Structure → Option NodeId
  | .switch node .. => some node
  | _ => none

/-- The head of a statement that is a switch and written as such. -/
def plainHeads (statement : Structure) : List NodeId :=
  if statement.isExpression then [] else statement.head?.toList

/-- The clauses and the finally block that counts are among the arms. -/
theorem arms_subperm (catches : List CatchArm) :
    (CatchArm.clauses catches ++ (CatchArm.finally? catches).toList).Subperm catches := by
  have hLast : (CatchArm.finally? catches).toList.Sublist (catches.filter fun arm => !arm.exception.isSome) := by
    simp only [CatchArm.finally?, Option.not_isSome]
    cases hFinally : (catches.filter fun arm => arm.exception.isNone).getLast? with
    | none => exact List.nil_sublist _
    | some arm => exact List.singleton_sublist.mpr (List.mem_of_getLast? hFinally)
  exact ((List.subperm_append_left _).mpr hLast.subperm).trans (List.filter_append_perm _ catches).subperm

/-- A statement names what is written inside it. Of several finally blocks only the last one is written. -/
theorem bodies_subperm_nested (statement : Structure) : statement.bodies.Subperm statement.nested := by
  cases statement with
  | protect node body catches follow =>
      obtain ⟨arms, hArms, hSublist⟩ := arms_subperm catches
      exact ⟨body :: arms.map CatchArm.body, (hArms.map _).cons body, (hSublist.map _).cons_cons body⟩
  | _ => exact .refl _

end Structure

open Structure

namespace DecompiledMethod

/-- The heads of the switches whose values some statement of the arena is written with. -/
def valueHeads (method : DecompiledMethod) : List NodeId :=
  method.tree.structures.toList.flatMap (Structure.heads method.body.graph)

/-- The heads of the switches that are written as statements. -/
def statementHeads (method : DecompiledMethod) : List NodeId :=
  method.tree.structures.toList.flatMap Structure.plainHeads

/-- No two operands stand for one switch, and none for a switch that is a statement. -/
def SwitchesOnce (method : DecompiledMethod) : Prop :=
  method.valueHeads.Nodup ∧ ∀ head ∈ method.valueHeads, head ∉ method.statementHeads

instance (method : DecompiledMethod) : Decidable method.SwitchesOnce := by
  unfold SwitchesOnce
  infer_instance

/-- All that is written from the first statement on, down to a depth of nesting. -/
def written (method : DecompiledMethod) (depth : Nat) : List Piece :=
  within method.holds (.statement method.tree.root) depth

end DecompiledMethod

/-! ### Holders -/

theorem StructureTree.switchAt?_eq_some {tree : StructureTree} {head : NodeId} {statement : Structure}
    (hFound : tree.switchAt? head = some statement) :
    statement.head? = some head ∧ ∃ place, tree.get place = statement := by
  have hHead := Array.find?_some hFound
  obtain ⟨place, hPlace, rfl⟩ := Array.mem_iff_getElem.mp (Array.mem_of_find?_eq_some hFound)
  refine ⟨?_, place, by simp [get, Array.getD_eq_getD_getElem?, hPlace]⟩
  split at hHead
  · rename_i hSwitch
    rw [hSwitch, head?, eq_of_beq hHead]
  · exact absurd hHead Bool.false_ne_true

namespace DecompiledMethod

variable {method : DecompiledMethod} {roots : List StructureId} {id other : StructureId} {head : NodeId}
  {piece : Piece}

/-- All pieces that a statement names, whether it is written as a statement or as a value. -/
def named (method : DecompiledMethod) (statement : Structure) : List Piece :=
  (statement.heads method.body.graph).map .value ++ (proper statement.children).map .statement

@[simp] theorem value_mem_named {statement : Structure} :
    .value head ∈ method.named statement ↔ head ∈ statement.heads method.body.graph := by
  simp [named]

@[simp] theorem statement_mem_named {statement : Structure} :
    .statement id ∈ method.named statement ↔ id ∈ proper statement.children := by
  simp [named]

theorem contents_append_rest_subperm (method : DecompiledMethod) (statement : Structure) :
    (statement.contents method.body.graph ++ statement.rest).Subperm (method.named statement) := by
  rw [contents, rest, List.append_assoc, ← List.map_append, ← proper_append, named]
  obtain ⟨bodies, hBodies, hSublist⟩ := statement.bodies_subperm_nested
  refine (List.subperm_append_left _).mpr ⟨(proper (bodies ++ statement.follow?.toList)).map .statement, ?_, ?_⟩
  · exact ((hBodies.append_right _).filter _).map _
  · exact ((hSublist.append_right _).filter _).map _

/-- No piece is named twice in the arena. -/
theorem named_once (forest : IsForest method.tree.structures roots) (hHeads : method.valueHeads.Nodup) :
    (method.tree.structures.toList.flatMap method.named).Nodup := by
  obtain ⟨hHeads, hHeadsApart⟩ := List.nodup_flatMap.mp hHeads
  obtain ⟨hChildren, hChildrenApart⟩ := List.nodup_flatMap.mp forest.proper_once
  refine List.nodup_flatMap.mpr ⟨fun statement hStatement => ?_, (hHeadsApart.and hChildrenApart).imp ?_⟩
  · refine List.Nodup.append ((hHeads statement hStatement).map fun _ _ => Piece.value.inj)
      ((hChildren statement hStatement).map fun _ _ => Piece.statement.inj) ?_
    simp [List.Disjoint]
  · rintro first second ⟨hHeads, hChildren⟩ (id | head) hFirst hSecond
    · exact hChildren (statement_mem_named.mp hFirst) (statement_mem_named.mp hSecond)
    · exact hHeads (value_mem_named.mp hFirst) (value_mem_named.mp hSecond)

/-- What a statement holds is named by it. -/
theorem holds_statement_subperm (method : DecompiledMethod) (id : StructureId) :
    (method.holds (.statement id)).Subperm (method.named (method.tree.get id)) := by
  refine .trans ?_ (method.contents_append_rest_subperm _)
  simp only [holds, StructureTree.holds]
  split
  · exact (List.sublist_append_right _ _).subperm
  · exact .refl _

theorem rest_subset_holds (method : DecompiledMethod) (id : StructureId) :
    (method.tree.get id).rest ⊆ method.holds (.statement id) := by
  simp only [holds, StructureTree.holds]
  split
  · exact fun _ hPiece => hPiece
  · exact List.subset_append_right _ _

theorem contents_subset_holds (hPlain : (method.tree.get id).isExpression = false) :
    (method.tree.get id).contents method.body.graph ⊆ method.holds (.statement id) := by
  simp only [holds, StructureTree.holds, hPlain, Bool.false_eq_true, if_false]
  exact List.subset_append_left _ _

@[simp] theorem holds_value_none (hNone : method.tree.switchAt? head = none) : method.holds (.value head) = [] := by
  rw [holds, StructureTree.holds, hNone, Option.elim_none]

@[simp] theorem holds_value_some {statement : Structure} (hFound : method.tree.switchAt? head = some statement) :
    method.holds (.value head) = statement.contents method.body.graph := by
  rw [holds, StructureTree.holds, hFound, Option.elim_some]

/-- What a switch holds as a value is named by the statement that it is. -/
theorem holds_value (method : DecompiledMethod) (head : NodeId) :
    method.holds (.value head) = [] ∨ ∃ place, (method.tree.get place).head? = some head ∧
      method.holds (.value head) = (method.tree.get place).contents method.body.graph := by
  cases hFound : method.tree.switchAt? head with
  | none => exact .inl (holds_value_none hFound)
  | some statement =>
      obtain ⟨hHead, place, rfl⟩ := StructureTree.switchAt?_eq_some hFound
      exact .inr ⟨place, hHead, holds_value_some hFound⟩

/-- Every piece is held by way of one place of the arena. -/
theorem exists_place (method : DecompiledMethod) (piece : Piece) :
    ∃ place, (method.holds piece).Subperm (method.named (method.tree.get place)) := by
  cases piece with
  | statement id => exact ⟨id, method.holds_statement_subperm id⟩
  | value head =>
      rcases method.holds_value head with hNone | ⟨place, -, hHolds⟩
      · exact ⟨emptyId, hNone ▸ List.nil_subperm⟩
      · exact ⟨place, hHolds ▸ (List.sublist_append_left _ _).subperm.trans (method.contents_append_rest_subperm _)⟩

/-- A statement and a switch that some operand stands for hold no piece in common. -/
theorem holds_apart (forest : IsForest method.tree.structures roots) (once : method.SwitchesOnce)
    (hHead : head ∈ method.valueHeads) (hStatement : piece ∈ method.holds (.statement id))
    (hValue : piece ∈ method.holds (.value head)) : False := by
  have hOnce := named_once forest once.1
  rcases method.holds_value head with hNone | ⟨place, hSwitch, hHolds⟩
  · exact List.not_mem_nil (hNone ▸ hValue)
  rw [hHolds] at hValue
  have hNamed := method.contents_append_rest_subperm (method.tree.get place)
  obtain rfl := place_unique rfl hOnce ((method.holds_statement_subperm id).subset hStatement)
    (hNamed.subset (List.mem_append_left _ hValue))
  -- Both are written from one switch. As an expression it holds only what follows it, as a statement it is no value.
  by_cases hExpression : (method.tree.get id).isExpression = true
  · simp only [holds, StructureTree.holds, hExpression, if_true] at hStatement
    obtain ⟨pieces, hPieces, hSublist⟩ := hNamed
    have hNodup := hPieces.nodup_iff.mp ((place_nodup rfl hOnce id).sublist hSublist)
    exact (List.nodup_append.mp hNodup).2.2 piece hValue piece hStatement rfl
  · have hPlain : head ∈ (method.tree.get id).plainHeads := by
      rw [plainHeads, if_neg hExpression, hSwitch]
      exact List.mem_singleton_self head
    exact once.2 head hHead (mem_arena_of_mem_place rfl hPlain)

/-- A statement, or a switch as a value that some operand stands for. -/
def Met (method : DecompiledMethod) : Piece → Prop
  | .statement _ => True
  | .value head => head ∈ method.valueHeads

/-- No piece is held at two places. -/
theorem unshared (forest : IsForest method.tree.structures roots) (once : method.SwitchesOnce) :
    Unshared method.holds method.Met where
  closed {piece} _ inside hInside := by
    obtain ⟨place, hNamed⟩ := method.exists_place piece
    cases inside with
    | statement id => trivial
    | value head => exact mem_arena_of_mem_place rfl (value_mem_named.mp (hNamed.subset hInside))
  once {piece} _ := by
    obtain ⟨place, pieces, hPieces, hSublist⟩ := method.exists_place piece
    exact hPieces.nodup_iff.mp ((place_nodup rfl (named_once forest once.1) place).sublist hSublist)
  holder_unique {piece first second} hFirst hSecond hHeld hHeldToo := by
    have hOnce := named_once forest once.1
    match first, second with
    | .statement a, .statement b =>
        exact congrArg Piece.statement (place_unique rfl hOnce ((method.holds_statement_subperm a).subset hHeld)
          ((method.holds_statement_subperm b).subset hHeldToo))
    | .statement a, .value b => exact (holds_apart forest once hSecond hHeld hHeldToo).elim
    | .value a, .statement b => exact (holds_apart forest once hFirst hHeldToo hHeld).elim
    | .value a, .value b =>
        obtain hNone | ⟨place, hHead, hHolds⟩ := method.holds_value a
        · exact (List.not_mem_nil (hNone ▸ hHeld)).elim
        obtain hNone | ⟨other, hOther, hHoldsToo⟩ := method.holds_value b
        · exact (List.not_mem_nil (hNone ▸ hHeldToo)).elim
        have hNamed (place : StructureId) := (method.contents_append_rest_subperm (method.tree.get place)).subset
        obtain rfl := place_unique rfl hOnce (hNamed place (List.mem_append_left _ (hHolds ▸ hHeld)))
          (hNamed other (List.mem_append_left _ (hHoldsToo ▸ hHeldToo)))
        exact congrArg Piece.value (Option.some.inj (hHead.symm.trans hOther))

/-- A root does not lie inside anything. -/
theorem root_not_mem_level (forest : IsForest method.tree.structures roots) (hRoot : id ∈ roots) (depth : Nat) :
    .statement id ∉ level method.holds piece (depth + 1) := by
  intro hLevel
  obtain ⟨holder, -, hHeld⟩ := List.mem_flatMap.mp hLevel
  obtain ⟨place, hNamed⟩ := method.exists_place holder
  obtain ⟨hChild, hProper⟩ := mem_proper.mp (statement_mem_named.mp (hNamed.subset hHeld))
  exact forest.root_not_child hRoot hProper place hChild

/-- The pieces that may hold others: the statements of the arena, and the switches among them as values. -/
def holders (method : DecompiledMethod) : List Piece :=
  (List.range method.tree.structures.size).map .statement ++
    (method.tree.structures.toList.filterMap Structure.head?).map .value

theorem mem_holders (hHolds : method.holds piece ≠ []) : piece ∈ method.holders := by
  cases piece with
  | statement id =>
      refine List.mem_append_left _ (List.mem_map_of_mem (List.mem_range.mpr ?_))
      by_contra hOutside
      have hGet := StructureTree.get_of_size_le (Nat.le_of_not_lt hOutside)
      exact hHolds (by rw [holds, StructureTree.holds, hGet]; rfl)
  | value head =>
      refine List.mem_append_right _ (List.mem_map_of_mem ?_)
      cases hFound : method.tree.switchAt? head with
      | none => exact absurd (holds_value_none hFound) hHolds
      | some statement =>
          exact List.mem_filterMap.mpr ⟨statement, Array.mem_toList_iff.mpr (Array.mem_of_find?_eq_some hFound),
            (StructureTree.switchAt?_eq_some hFound).1⟩

theorem length_holders_le (method : DecompiledMethod) : method.holders.length ≤ 2 * method.tree.structures.size := by
  rw [holders, List.length_append, List.length_map, List.length_map, List.length_range, Nat.two_mul]
  exact Nat.add_le_add_left ((List.length_filterMap_le _ _).trans_eq (Array.length_toList)) _

/-- Nothing is written twice. -/
theorem written_nodup (forest : IsForest method.tree.structures [method.tree.root]) (once : method.SwitchesOnce)
    (depth : Nat) : (method.written depth).Nodup := by
  have hMet : method.Met (.statement method.tree.root) := trivial
  exact (unshared forest once).within_nodup hMet (root_not_mem_level forest (List.mem_singleton_self _)) depth

/-- The nesting ends by itself. -/
theorem level_eq_nil (forest : IsForest method.tree.structures [method.tree.root]) (once : method.SwitchesOnce) :
    level method.holds (.statement method.tree.root) (2 * method.tree.structures.size + 1) = [] := by
  have hMet : method.Met (.statement method.tree.root) := trivial
  have hEmpty := (unshared forest once).level_eq_nil hMet
    (root_not_mem_level forest (List.mem_singleton_self _)) (fun _ => mem_holders)
  exact level_eq_nil_of_le hEmpty (Nat.succ_le_succ method.length_holders_le)

/-- Nothing more is written further down. -/
theorem written_eq (forest : IsForest method.tree.structures [method.tree.root]) (once : method.SwitchesOnce)
    {depth : Nat} (hDepth : 2 * method.tree.structures.size < depth) :
    method.written depth = method.written (2 * method.tree.structures.size + 1) :=
  within_eq_of_le (level_eq_nil forest once) hDepth

/-! ### Code -/

theorem arms_congr {cases : List SwitchArm} {write writeToo : StructureId → Code}
    (hBodies : ∀ arm ∈ cases, write arm.body = writeToo arm.body) :
    (cases.map fun arm => (arm.keys, write arm.body)) = cases.map fun arm => (arm.keys, writeToo arm.body) :=
  List.map_congr_left fun arm hArm => congrArg (Prod.mk arm.keys) (hBodies arm hArm)

/-- A statement is written alike if the switch expressions and the statements inside it are. -/
theorem codeOf_congr {scope : Code.Scope} {values others : NodeId → Code} {write writeToo : StructureId → Code}
    {statement : Structure}
    (hWritten : statement.isExpression = false →
      (∀ head ∈ statement.heads method.body.graph, values head = others head) ∧
        ∀ id ∈ statement.bodies, write id = writeToo id) :
    method.codeOf (scope.withValues values) write statement =
      method.codeOf (scope.withValues others) writeToo statement := by
  by_cases hExpression : statement.isExpression = true
  · cases statement <;> simp_all [isExpression, codeOf]
  obtain ⟨hHeads, hBodies⟩ := hWritten (Bool.eq_false_iff.mpr hExpression)
  have hSame : ∀ operand ∈ statement.operands method.body.graph, Code.SameValues values others operand.walk :=
    fun operand hOperand head hHead => hHeads head (List.mem_flatMap.mpr ⟨operand, hOperand, hHead⟩)
  have hOperand : ∀ operand ∈ statement.operands method.body.graph,
      Code.ofOperand (scope.withValues values) 0 operand = Code.ofOperand (scope.withValues others) 0 operand :=
    fun operand hOperand => Code.ofOperand_withValues scope 0 operand (hSame operand hOperand)
  clear hWritten hHeads
  cases statement with
  | empty => rfl
  | breaks => rfl
  | continues => rfl
  | fragment node follow =>
      have hStatements := List.map_congr_left fun operand hMember =>
        Code.ofStatement_withValues scope operand (hSame operand hMember)
      exact congrArg Code.sequence hStatements
  | conditional node test body otherwise follow =>
      simp only [operands, bodies, List.forall_mem_cons, Option.mem_toList] at hOperand hBodies
      have hOtherwise := Option.map_congr fun id
          (hId : id ∈ otherwise.filter fun id => !(method.tree.get id).isEmpty) =>
        hBodies.2 id (Option.mem_filter_iff.mp hId).1
      simp only [codeOf, hOperand.1, hBodies.1, hOtherwise]
  | whileLoop node breakable test body follow =>
      simp only [operands, bodies, List.forall_mem_singleton] at hOperand hBodies
      simp only [codeOf, hOperand, hBodies]
  | doWhile node breakable body test follow =>
      simp only [operands, bodies, List.forall_mem_singleton] at hOperand hBodies
      simp only [codeOf, hOperand, hBodies]
  | forLoop node breakable initializer test updates body follow =>
      simp only [operands, bodies, List.forall_mem_append, List.forall_mem_cons, Option.mem_toList] at hOperand hBodies
      obtain ⟨hInitializer, hTest, hUpdates⟩ := hOperand
      simp only [codeOf, Option.map_congr hInitializer, hTest, List.map_congr_left hUpdates, hBodies]
  | forEach node breakable element iterable body follow =>
      simp only [operands, bodies, List.forall_mem_cons] at hOperand hBodies
      simp only [codeOf, hOperand.1, hOperand.2.1, hBodies.1]
  | forever node breakable body follow =>
      simp only [bodies, List.forall_mem_singleton] at hBodies
      simp only [codeOf, hBodies]
  | switch node breakable selector cases default expression follow =>
      obtain rfl : expression = false := Bool.eq_false_iff.mpr hExpression
      simp only [operands, bodies, List.forall_mem_append, List.forall_mem_map, List.forall_mem_singleton,
        Option.mem_toList] at hOperand hBodies
      simp only [codeOf, hOperand, arms_congr hBodies.1, Option.map_congr hBodies.2]
  | protect node body catches follow =>
      simp only [bodies, List.forall_mem_cons, List.forall_mem_map, List.forall_mem_append, Option.mem_toList] at hBodies
      obtain ⟨hBody, hClauses, hFinally⟩ := hBodies
      have hClauses := List.map_congr_left fun arm (hArm : arm ∈ CatchArm.clauses catches) =>
        congrArg (fun code => (arm.exception, arm.caught?.map method.body.locals.name, code)) (hClauses arm hArm)
      simp only [codeOf, hBody, hClauses, Option.map_congr hFinally]

/-- Only the code of switch expressions depends on the depth of nesting. -/
theorem scopeWithin_eq (method : DecompiledMethod) (depth : Nat) :
    method.scopeWithin depth = (method.scopeWithin 0).withValues (method.scopeWithin depth).switchValue := by
  cases depth <;> rfl

theorem codeWithin_empty (method : DecompiledMethod) (depth : Nat) :
    method.codeWithin depth emptyId = .sequence [] := by
  cases depth <;> rfl

/-- The ways into a statement of a chain are not longer than those into the first. -/
theorem ends_of_mem_chainFrom {bound : Nat} (hEnds : Ends method.holds bound (.statement id)) (fuel : Nat) :
    ∀ other ∈ method.tree.chainFrom fuel id, Ends method.holds bound (.statement other) := by
  induction fuel generalizing id bound with
  | zero => exact fun _ hOther => absurd hOther List.not_mem_nil
  | succ fuel ih =>
      intro other hOther
      rw [StructureTree.chainFrom] at hOther
      split at hOther
      · exact absurd hOther List.not_mem_nil
      rcases List.mem_cons.mp hOther with rfl | hRest
      · exact hEnds
      cases hFollow : (method.tree.get id).follow? with
      | none => exact absurd (hFollow ▸ hRest) List.not_mem_nil
      | some follow =>
          rw [hFollow, Option.elim_some] at hRest
          have hProper : follow ≠ emptyId := by
            rintro rfl
            cases fuel <;> exact absurd hRest List.not_mem_nil
          cases bound with
          | zero => exact hEnds.elim
          | succ bound =>
              have hHeld : .statement follow ∈ (method.tree.get id).rest := by
                rw [rest, hFollow]
                exact List.mem_map_of_mem (mem_proper.mpr ⟨List.mem_singleton_self _, hProper⟩)
              exact (ih (hEnds _ (method.rest_subset_holds id hHeld)) other hRest).mono (Nat.le_succ bound)

/-- Two depths of nesting give the same code of what lies in a statement. -/
def Agree (method : DecompiledMethod) (depth deeper : Nat) (statement : Structure) : Prop :=
  (∀ head ∈ statement.heads method.body.graph,
      (method.scopeWithin depth).switchValue head = (method.scopeWithin deeper).switchValue head) ∧
    ∀ id ∈ statement.bodies, method.codeWithin depth id = method.codeWithin deeper id

/-- Two depths agree on a statement if they do on each piece of its contents. -/
theorem agree_of_contents {depth deeper : Nat} {statement : Structure}
    (hValue : ∀ head, .value head ∈ statement.contents method.body.graph →
      (method.scopeWithin depth).switchValue head = (method.scopeWithin deeper).switchValue head)
    (hStatement : ∀ id, .statement id ∈ statement.contents method.body.graph →
      method.codeWithin depth id = method.codeWithin deeper id) : method.Agree depth deeper statement := by
  refine ⟨fun head hHead => hValue head (List.mem_append_left _ (List.mem_map_of_mem hHead)), fun id hId => ?_⟩
  by_cases hProper : id = emptyId
  · rw [hProper, codeWithin_empty, codeWithin_empty]
  · exact hStatement id (List.mem_append_right _ (List.mem_map_of_mem (mem_proper.mpr ⟨hId, hProper⟩)))

theorem codeOf_eq_of_agree {depth deeper : Nat} {statement : Structure}
    (hAgree : statement.isExpression = false → method.Agree depth deeper statement) :
    method.codeOf (method.scopeWithin depth) (method.codeWithin depth) statement =
      method.codeOf (method.scopeWithin deeper) (method.codeWithin deeper) statement := by
  rw [method.scopeWithin_eq depth, method.scopeWithin_eq deeper]
  exact codeOf_congr hAgree

theorem switchValue_eq_of_agree {depth deeper : Nat}
    (hAgree : ∀ statement, method.tree.switchAt? head = some statement → method.Agree depth deeper statement) :
    (method.scopeWithin (depth + 1)).switchValue head = (method.scopeWithin (deeper + 1)).switchValue head := by
  rw [scopeWithin, scopeWithin]
  dsimp only
  split
  · rename_i node breakable selector cases default expression follow hFound
    obtain ⟨hHeads, hBodies⟩ := hAgree _ hFound
    simp only [heads, operands, List.flatMap_singleton] at hHeads
    simp only [bodies, List.forall_mem_append, List.forall_mem_map, Option.mem_toList] at hBodies
    have hSelector : Code.ofOperand (method.scopeWithin depth) 0 selector =
        Code.ofOperand (method.scopeWithin deeper) 0 selector := by
      rw [method.scopeWithin_eq depth, method.scopeWithin_eq deeper]
      exact Code.ofOperand_withValues _ 0 selector hHeads
    rw [hSelector, arms_congr hBodies.1, Option.map_congr hBodies.2]
  · rfl

/-- Once all ways into a piece end, a deeper nesting changes nothing. -/
theorem code_eq_of_ends {bound depth deeper : Nat} (hDepth : bound ≤ depth) (hDeeper : bound ≤ deeper) :
    (∀ head, Ends method.holds bound (.value head) →
      (method.scopeWithin depth).switchValue head = (method.scopeWithin deeper).switchValue head) ∧
    ∀ start, Ends method.holds bound (.statement start) →
      method.codeWithin depth start = method.codeWithin deeper start := by
  -- Values and statements hold each other, so both are settled by one induction on the length of the ways.
  induction bound generalizing depth deeper with
  | zero => exact ⟨fun _ hEnds => hEnds.elim, fun _ hEnds => hEnds.elim⟩
  | succ bound ih =>
      obtain ⟨depth, rfl⟩ := Nat.exists_eq_add_one_of_ne_zero (Nat.ne_of_gt (Nat.zero_lt_of_lt hDepth))
      obtain ⟨deeper, rfl⟩ := Nat.exists_eq_add_one_of_ne_zero (Nat.ne_of_gt (Nat.zero_lt_of_lt hDeeper))
      obtain ⟨hValue, hStatement⟩ := ih (Nat.le_of_succ_le_succ hDepth) (Nat.le_of_succ_le_succ hDeeper)
      refine ⟨fun head hEnds => switchValue_eq_of_agree fun statement hFound => ?_, fun start hEnds => ?_⟩
      · have hHolds := holds_value_some hFound
        refine agree_of_contents (fun head hHead => hValue head (hEnds _ ?_)) fun id hId => hStatement id (hEnds _ ?_)
        · exact hHolds ▸ hHead
        · exact hHolds ▸ hId
      · rw [codeWithin, codeWithin]
        refine congrArg Code.sequence (List.map_congr_left fun id hId => codeOf_eq_of_agree fun hPlain => ?_)
        have hInside := ends_of_mem_chainFrom hEnds _ id hId
        have hHolds := contents_subset_holds hPlain
        exact agree_of_contents (fun head hHead => hValue head (hInside _ (hHolds hHead)))
          fun id hId => hStatement id (hInside _ (hHolds hId))

/-- The bound is no limit: the nesting of a unit exceeds it only if it has no end. -/
theorem isFinite_iff : method.isFinite = true ↔ ∃ depth, level method.holds (.statement method.tree.root) depth = [] := by
  rw [isFinite, endsWithin_iff]
  refine ⟨fun hEnds => ⟨_, ends_iff_level_eq_nil.mp hEnds⟩, fun ⟨depth, hEmpty⟩ => ?_⟩
  have hEnds := (ends_iff_level_eq_nil.mpr hEmpty).of_holders fun _ => mem_holders
  exact hEnds.mono (Nat.succ_le_succ (method.length_holders_le.trans (Nat.le_succ _)))

/-- A unit has no code just if there is something at every depth. -/
theorem code?_eq_none_iff :
    method.code? = none ↔ ∀ depth, level method.holds (.statement method.tree.root) depth ≠ [] := by
  simp [code?, isFinite_iff]

/-- The code of a unit is not cut off: no deeper nesting gives more. -/
theorem codeWithin_eq_of_code? {code : Code} (hCode : method.code? = some code) {depth : Nat}
    (hDepth : 2 * method.tree.structures.size < depth) : method.codeWithin depth method.tree.root = code := by
  simp only [code?, Option.ite_none_right_eq_some, Option.some.injEq] at hCode
  obtain ⟨hFinite, rfl⟩ := hCode
  have hEnds := (endsWithin_iff.mp hFinite).of_holders fun _ => mem_holders
  have hBound := Nat.succ_le_succ method.length_holders_le
  exact (code_eq_of_ends (hBound.trans hDepth) (hBound.trans (Nat.le_succ _))).2 _ hEnds

/-- Where no switch is written at two places there is code, all of it. -/
theorem code?_eq (forest : IsForest method.tree.structures [method.tree.root]) (once : method.SwitchesOnce)
    {depth : Nat} (hDepth : 2 * method.tree.structures.size < depth) :
    method.code? = some (method.codeWithin depth method.tree.root) := by
  have hFinite : method.isFinite = true := isFinite_iff.mpr ⟨_, level_eq_nil forest once⟩
  have hCode : method.code? = some (method.codeWithin method.nestingBound method.tree.root) := if_pos hFinite
  rw [hCode, codeWithin_eq_of_code? hCode hDepth]

end DecompiledMethod

end Decompiler
