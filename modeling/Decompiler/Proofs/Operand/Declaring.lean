import Decompiler.Local.Placement
import Decompiler.Proofs.Operand.Targets
import Decompiler.Proofs.Operand.Walk

/-!
Which operands declare a variable, and what remains of an operand when its marks are taken off and its targets are
read as the nodes that they stand for. Nothing but the marks and the targets is lost.
-/

namespace Decompiler.Operand

variable {operand declaration : Operand} {id other : VariableId}

/-! ### Marks -/

/-- The operand itself is a declaration of the variable, or an occurrence that is marked as one. -/
def declares (operand : Operand) (sought : VariableId) : Bool :=
  match operand.kind with
  | .declaration id => id == sought
  | .localVariable id declares => declares && id == sought
  | _ => false

/-- How often an operand declares the variable, at any depth. -/
def declarations (operand : Operand) (sought : VariableId) : Nat := operand.walk.countP (·.declares sought)

/-- The operand as a whole is a declaration of the variable, or an assignment that declares it. -/
def IsDeclarationOf (operand : Operand) (id : VariableId) : Prop :=
  operand.kind = .declaration id ∨
    ∃ target value, operand.kind = .assign target .assign value ∧ target.kind = .localVariable id true

/-- Whatever the operand declares, it declares as a whole. -/
def DeclaresWhole (operand : Operand) : Prop := ∀ id, operand.declarations id ≠ 0 → operand.IsDeclarationOf id

/-- The operand itself declares some variable. -/
def isMark (operand : Operand) : Bool :=
  match operand.kind with
  | .declaration _ => true
  | .localVariable _ declares => declares
  | _ => false

/-- Nothing inside the operand declares a variable. -/
def Unmarked (operand : Operand) : Prop := ∀ inner ∈ operand.walk, inner.isMark = false

instance (operand : Operand) : Decidable operand.Unmarked := inferInstanceAs (Decidable (∀ _ ∈ _, _))

def isDeclaration (operand : Operand) : Bool :=
  match operand.kind with
  | .declaration _ => true
  | _ => false

/-- Takes the mark off an occurrence of a variable. -/
def unmark (operand : Operand) : Operand :=
  match operand.kind with
  | .localVariable id _ => { operand with kind := .localVariable id false }
  | _ => operand

/-- The operand without marks, and with each target as the node that it stands for. -/
def erase (stand : NodeId → NodeId) : Operand → Operand :=
  rewrite fun inner => (inner.mapCondition (Condition.mapTargets (Option.map stand))).unmark

/-- The statements that are no declarations, each without marks. -/
def eraseAll (stand : NodeId → NodeId) (stack : List Operand) : List Operand :=
  (stack.filter fun operand => !operand.isDeclaration).map (erase stand)

/-! ### Parts -/

theorem declarations_eq (operand : Operand) (id : VariableId) : operand.declarations id =
    (operand.children.flatMap walk).countP (·.declares id) + if operand.declares id then 1 else 0 := by
  rw [declarations, walk_eq, List.countP_cons, walkParts_eq_flatMap]

theorem references_eq (operand : Operand) (id : VariableId) :
    operand.references id = (operand.mentions id || operand.children.any (·.references id)) := by
  rw [references, walk_eq, List.any_cons, walkParts_eq_flatMap, List.any_flatMap]
  rfl

theorem Unmarked.declarations (unmarked : operand.Unmarked) (id : VariableId) : operand.declarations id = 0 := by
  refine List.countP_eq_zero.mpr fun inner hInner => ?_
  have hMark := unmarked inner hInner
  obtain ⟨_, _, _, _, _, kind⟩ := inner
  cases kind <;> simp_all [isMark, declares]

theorem Unmarked.unmark {inner : Operand} (unmarked : operand.Unmarked) (hInner : inner ∈ operand.walk) :
    inner.unmark = inner := by
  have hMark := unmarked inner hInner
  clear hInner
  obtain ⟨_, _, _, _, _, kind⟩ := inner
  cases kind
  case localVariable id marked => simp_all [isMark, Operand.unmark]
  all_goals rfl

theorem Unmarked.isDeclaration (unmarked : operand.Unmarked) : operand.isDeclaration = false := by
  have hMark := unmarked operand (self_mem_walk operand)
  clear unmarked
  obtain ⟨_, _, _, _, _, kind⟩ := operand
  cases kind
  case declaration id => cases hMark
  all_goals rfl

theorem declarations_of_declaration {declaration : Operand} (hKind : declaration.kind = .declaration id)
    (other : VariableId) : declaration.declarations other = if other = id then 1 else 0 := by
  obtain ⟨_, _, _, _, _, kind⟩ := declaration
  obtain rfl : kind = _ := hKind
  simp [declarations, walk, OperandKind.walkParts, declares, List.countP_cons, @eq_comm _ other id]

theorem declaresWhole_of_declaration {declaration : Operand} (hKind : declaration.kind = .declaration id) :
    declaration.DeclaresWhole := by
  intro other hDeclares
  rw [declarations_of_declaration hKind] at hDeclares
  by_cases hSame : other = id
  · exact .inl (hSame ▸ hKind)
  · exact absurd (if_neg hSame) hDeclares

/-! ### What is erased -/

/-- The targets of the conditions anywhere in the operand have the property. -/
def TargetsAll (property : NodeId → Prop) (operand : Operand) : Prop :=
  ∀ inner ∈ operand.walk, ∀ test ∈ inner.condition?,
    (∀ target ∈ test.onTrue, property target) ∧ ∀ target ∈ test.onFalse, property target

instance (property : NodeId → Prop) [DecidablePred property] (operand : Operand) :
    Decidable (operand.TargetsAll property) :=
  inferInstanceAs (Decidable (∀ _ ∈ _, ∀ _ ∈ _, _))

/-- Nothing is erased from an operand without marks whose targets stand for themselves. -/
theorem erase_eq_self {stand : NodeId → NodeId} (unmarked : operand.Unmarked)
    (hTargets : operand.TargetsAll fun target => stand target = target) : operand.erase stand = operand := by
  refine rewrite_eq_self operand fun inner hInner => ?_
  have hSame : inner.mapCondition (Condition.mapTargets (Option.map stand)) = inner := by
    refine mapCondition_eq_self fun test hTest => ?_
    obtain ⟨hTrue, hFalse⟩ := hTargets inner hInner test hTest
    obtain ⟨left, operator, right, onTrue, onFalse, grouped⟩ := test
    cases onTrue <;> cases onFalse <;> simp_all [Condition.mapTargets]
  rw [hSame, unmarked.unmark hInner]

/-- A target that stands for the one it replaces makes no difference. -/
theorem erase_retarget {stand : NodeId → NodeId} {before created : NodeId} (hStand : stand created = stand before)
    (operand : Operand) : (operand.retarget before (some created)).erase stand = operand.erase stand := by
  induction operand using induction_children with
  | step operand ih =>
      obtain ⟨_, _, _, _, _, kind⟩ := operand
      cases kind
      case condition test =>
        obtain ⟨left, operator, right, onTrue, onFalse, grouped⟩ := test
        have hTarget (target : Option NodeId) :
            (if target = some before then some created else target).map stand = target.map stand := by
          split
          · next h => simp [h, hStand]
          · rfl
        simp_all [erase, children, retarget, Condition.retarget, rewrite, OperandKind.rewriteParts,
          Condition.rewriteSides, mapCondition, Condition.mapTargets, unmark]
      all_goals rw [retarget]; simp

/-- A target that is replaced is no mark. -/
theorem declarations_retarget (before : NodeId) (created : Option NodeId) (operand : Operand) (id : VariableId) :
    (operand.retarget before created).declarations id = operand.declarations id := by
  induction operand using induction_children with
  | step operand ih =>
      obtain ⟨_, _, _, _, _, kind⟩ := operand
      cases kind
      case condition test =>
        obtain ⟨left, _, right, _, _, _⟩ := test
        simp only [children, List.mem_cons, List.not_mem_nil, or_false, forall_eq_or_imp, forall_eq, declarations] at ih
        rw [retarget, Condition.retarget, declarations_eq, declarations_eq (Operand.mk _ _ _ _ _ _)]
        simp only [children, List.flatMap_cons, List.flatMap_nil, List.countP_append, ih]
        rfl
      all_goals rw [retarget]; simp

/-- A target that is replaced belongs to a condition, which declares nothing as a whole. -/
theorem DeclaresWhole.retarget {operand : Operand} (whole : operand.DeclaresWhole) (before : NodeId)
    (created : Option NodeId) : (operand.retarget before created).DeclaresWhole := by
  intro id hDeclares
  rw [declarations_retarget] at hDeclares
  have hWhole := whole id hDeclares
  obtain ⟨_, _, _, _, _, kind⟩ := operand
  cases kind
  case condition => simp [IsDeclarationOf] at hWhole
  all_goals exact hWhole

theorem references_erase (stand : NodeId → NodeId) (operand : Operand) (id : VariableId) :
    (operand.erase stand).references id = operand.references id := by
  induction operand using induction_children with
  | step operand ih =>
      have hChildren : (operand.erase stand).children = operand.children.map (erase stand) := by
        rw [erase, ← children_rewriteParts, rewrite_eq]
        generalize operand.kind.rewriteParts _ = kind
        cases kind <;> rfl
      have hMentions : (operand.erase stand).mentions id = operand.mentions id := by
        rw [erase, rewrite_eq]
        obtain ⟨_, _, _, _, _, kind⟩ := operand
        cases kind <;> rfl
      rw [references_eq, references_eq operand, hChildren, hMentions, List.any_map]
      congr 1
      rw [Bool.eq_iff_iff, List.any_eq_true, List.any_eq_true]
      exact exists_congr fun part => and_congr_right fun hPart => by rw [Function.comp_apply, ih part hPart]

end Decompiler.Operand

namespace Decompiler.Placement

open Operand

variable {operand declaration : Operand} {id : VariableId} {stack after : List Operand}

/-! ### Assignments that come to declare their target -/

theorem declaring?_eq_some (hDeclaring : declaring? id operand = some declaration) :
    ∃ target value marked, operand.kind = .assign target .assign value ∧ target.kind = .localVariable id marked ∧
      declaration =
        { operand with kind := .assign { target with kind := .localVariable id true } .assign value } := by
  unfold declaring? at hDeclaring
  split at hDeclaring
  · next target value hKind =>
      split at hDeclaring
      · next assigned marked hTarget =>
          split at hDeclaring
          · next hAssigned =>
              obtain ⟨rfl, -⟩ : assigned = id ∧ _ := by simpa using hAssigned
              exact ⟨target, value, marked, hKind, hTarget, (Option.some.inj hDeclaring).symm⟩
          · cases hDeclaring
      · cases hDeclaring
  · cases hDeclaring

theorem isDeclarationOf_declaring? (hDeclaring : declaring? id operand = some declaration) :
    declaration.IsDeclarationOf id := by
  obtain ⟨target, value, marked, -, -, rfl⟩ := declaring?_eq_some hDeclaring
  exact .inr ⟨_, value, rfl, rfl⟩

/-- No other mark is set. -/
theorem declarations_declaring? (hDeclaring : declaring? id operand = some declaration)
    (hNone : operand.declarations id = 0) (other : VariableId) :
    declaration.declarations other = operand.declarations other + if other = id then 1 else 0 := by
  obtain ⟨target, value, marked, hKind, hTarget, rfl⟩ := declaring?_eq_some hDeclaring
  obtain ⟨_, _, _, _, _, kind⟩ := operand
  obtain ⟨_, _, _, _, _, kind'⟩ := target
  obtain rfl : kind = _ := hKind
  obtain rfl : kind' = _ := hTarget
  have hUnmarked : marked = false := by
    by_contra hMarked
    simp [declarations, walk, OperandKind.walkParts, declares, hMarked] at hNone
  by_cases hSame : other = id
  · simp [declarations, walk, OperandKind.walkParts, declares, hUnmarked, hSame]
  · simp [declarations, walk, OperandKind.walkParts, declares, hSame, Ne.symm hSame]

theorem erase_declaring? (hDeclaring : declaring? id operand = some declaration) (stand : NodeId → NodeId) :
    declaration.erase stand = operand.erase stand ∧ declaration.isDeclaration = operand.isDeclaration := by
  obtain ⟨target, value, marked, hKind, hTarget, rfl⟩ := declaring?_eq_some hDeclaring
  obtain ⟨_, _, _, _, _, kind⟩ := operand
  obtain ⟨_, _, _, _, _, kind'⟩ := target
  obtain rfl : kind = _ := hKind
  obtain rfl : kind' = _ := hTarget
  refine ⟨?_, rfl⟩
  rw [erase, rewrite, rewrite, OperandKind.rewriteParts, OperandKind.rewriteParts, rewrite, rewrite]
  rfl

/-- One operand of the stack comes to declare the variable. -/
theorem declareFirst?_eq_some (hDeclare : declareFirst? id stack = some after) :
    ∃ front operand declaration back, stack = front ++ operand :: back ∧
      declaring? id operand = some declaration ∧ after = front ++ declaration :: back := by
  induction stack generalizing after with
  | nil => cases hDeclare
  | cons operand rest ih =>
      rw [declareFirst?] at hDeclare
      split at hDeclare
      · next declaration hDeclaring =>
          exact ⟨[], operand, declaration, rest, rfl, hDeclaring, (Option.some.inj hDeclare).symm⟩
      · split at hDeclare
        · cases hDeclare
        · obtain ⟨rest', hRest, rfl⟩ := Option.map_eq_some_iff.mp hDeclare
          obtain ⟨front, declared, declaration, back, rfl, hDeclaring, rfl⟩ := ih hRest
          exact ⟨operand :: front, declared, declaration, back, rfl, hDeclaring, rfl⟩

end Decompiler.Placement
