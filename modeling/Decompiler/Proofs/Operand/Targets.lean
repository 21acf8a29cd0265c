import Decompiler.Proofs.Operand.Walk
import Mathlib.Data.List.Basic

/-!
The nodes that the conditions inside an operand name. A change of them reaches every condition, at any depth, and
leaves the rest of the operand alone. Redirecting a reference is such a change, and redirecting several in turn is one.
-/

namespace Decompiler

namespace Operand

variable {operand part : Operand}

/-! ### Induction on the parts of an operand -/

/-- A part is smaller than the whole, which carries the recursion on parts. -/
theorem sizeOf_child (hPart : part ∈ operand.children) : sizeOf part < sizeOf operand := by
  have hList (parts : List Operand) (hPart : part ∈ parts) : sizeOf part < sizeOf parts := List.sizeOf_lt_of_mem hPart
  have hOption (value : Option Operand) (hPart : part ∈ value.toList) : sizeOf part < sizeOf value := by
    cases value <;> simp_all
  have hInitializers (values : Option (List Operand)) (hPart : part ∈ values.getD []) :
      sizeOf part < sizeOf values := by
    cases values with
    | none => simp at hPart
    | some parts => exact Nat.lt_trans (hList parts hPart) (by simp)
  obtain ⟨id, type, duplicated, enclosed, statement, kind⟩ := operand
  cases kind
  case condition test => cases test; grind [children]
  all_goals grind [children]

/-- What holds of an operand whenever it holds of its parts holds of every operand. -/
theorem induction_children {motive : Operand → Prop}
    (step : ∀ operand, (∀ part ∈ operand.children, motive part) → motive operand) (operand : Operand) :
    motive operand :=
  step operand fun part _ => induction_children step part
termination_by operand
decreasing_by exact sizeOf_child ‹_›

@[simp] theorem rewriteAll_eq_map (change : Operand → Operand) (operands : List Operand) :
    rewriteAll change operands = operands.map (rewrite change) := by
  induction operands with
  | nil => rfl
  | cons first rest ih => rw [rewriteAll, ih, List.map_cons]

@[simp] theorem rewriteOption_eq_map (change : Operand → Operand) (value : Option Operand) :
    rewriteOption change value = value.map (rewrite change) := by
  cases value <;> rfl

@[simp] theorem rewriteInitializers_eq_map (change : Operand → Operand) (values : Option (List Operand)) :
    rewriteInitializers change values = values.map (List.map (rewrite change)) := by
  cases values <;> simp [rewriteInitializers]

/-- Parts are rewritten first, then the operand that is made of them. -/
theorem rewrite_eq (change : Operand → Operand) (operand : Operand) :
    rewrite change operand = change { operand with kind := operand.kind.rewriteParts change } := by
  cases operand
  rw [rewrite]

/-- The parts of a rewritten operand are its rewritten parts. -/
theorem children_rewriteParts (change : Operand → Operand) (operand : Operand) :
    ({ operand with kind := operand.kind.rewriteParts change } : Operand).children =
      operand.children.map (rewrite change) := by
  obtain ⟨_, _, _, _, _, kind⟩ := operand
  cases kind
  case condition test => cases test; simp [children, OperandKind.rewriteParts, Condition.rewriteSides]
  case newArray _ _ values => cases values <;> simp [children, OperandKind.rewriteParts]
  case call _ _ _ value _ _ | field _ _ value | methodReference _ _ value | returns value | asserts _ value =>
    cases value <;> simp [children, OperandKind.rewriteParts]
  all_goals simp [children, OperandKind.rewriteParts]

theorem map_eq_self {change : Operand → Operand} {operands : List Operand}
    (hSame : ∀ operand ∈ operands, change operand = operand) : operands.map change = operands := by
  rw [List.map_congr_left hSame, List.map_id']

/-- A change that leaves everything inside an operand alone leaves the operand alone. -/
theorem rewrite_eq_self {change : Operand → Operand} (operand : Operand)
    (hSame : ∀ inner ∈ operand.walk, change inner = inner) : rewrite change operand = operand := by
  induction operand using induction_children with
  | step operand ih =>
      have hParts : ∀ part ∈ operand.children, rewrite change part = part := fun part hPart =>
        ih part hPart fun inner hInner => hSame inner (mem_walk_of_child hPart hInner)
      have hSelf := hSame operand (self_mem_walk operand)
      obtain ⟨_, _, _, _, _, kind⟩ := operand
      have hKind : kind.rewriteParts change = kind := by
        clear ih hSame hSelf
        cases kind
        case condition test => cases test; simp_all [children, OperandKind.rewriteParts, Condition.rewriteSides]
        case newArray _ _ values => cases values <;> simp_all [children, OperandKind.rewriteParts, map_eq_self]
        case call _ _ _ value _ _ | field _ _ value | methodReference _ _ value | returns value | asserts _ value =>
          cases value <;> simp_all [children, OperandKind.rewriteParts, map_eq_self]
        all_goals simp_all [children, OperandKind.rewriteParts, map_eq_self]
      rw [rewrite, hKind, hSelf]

end Operand

/-! ### Changes of targets -/

/-- Changes both targets of this one condition. -/
def Condition.mapTargets (change : Option NodeId → Option NodeId) (test : Condition) : Condition :=
  { test with onTrue := change test.onTrue, onFalse := change test.onFalse }

namespace Operand

/-- Changes the targets of every condition anywhere in an operand. -/
def mapTargets (change : Option NodeId → Option NodeId) : Operand → Operand :=
  rewrite (mapCondition (Condition.mapTargets change))

/-- Changing no target changes nothing. -/
theorem mapTargets_id (operand : Operand) : mapTargets (fun target => target) operand = operand := by
  refine rewrite_eq_self operand fun inner _ => ?_
  clear * -
  obtain ⟨_, _, _, _, _, kind⟩ := inner
  cases kind
  case condition test => obtain ⟨_, _, _, _, _, _⟩ := test; rfl
  all_goals rfl

/-- Changing the targets twice is changing them once. -/
theorem mapTargets_mapTargets (first second : Option NodeId → Option NodeId) (operand : Operand) :
    mapTargets second (mapTargets first operand) = mapTargets (second ∘ first) operand := by
  induction operand using induction_children with
  | step operand ih =>
      obtain ⟨_, _, _, _, _, kind⟩ := operand
      unfold mapTargets at ih ⊢
      cases kind
      case condition test =>
        cases test
        simp_all [children, rewrite, OperandKind.rewriteParts, mapCondition, Condition.rewriteSides,
          Condition.mapTargets]
      case newArray _ _ values => cases values <;> simp_all [children, rewrite, OperandKind.rewriteParts, mapCondition]
      case call _ _ _ value _ _ | field _ _ value | methodReference _ _ value | returns value | asserts _ value =>
        cases value <;> simp_all [children, rewrite, OperandKind.rewriteParts, mapCondition]
      all_goals simp_all [children, rewrite, OperandKind.rewriteParts, mapCondition]

/-! ### Redirected references -/

/-- An operand is another one with other targets in place of those that name nodes that are gone. -/
def Retargeted (gone : List NodeId) (before after : Operand) : Prop :=
  ∃ change : Option NodeId → Option NodeId,
    (∀ target, (∀ id ∈ gone, target ≠ some id) → change target = target) ∧ after = before.mapTargets change

namespace Retargeted

variable {gone others : List NodeId} {before middle after : Operand}

theorem refl (gone : List NodeId) (operand : Operand) : Retargeted gone operand operand :=
  ⟨fun target => target, fun _ _ => rfl, (mapTargets_id operand).symm⟩

/-- More nodes may be gone. -/
theorem mono (retargeted : Retargeted gone before after) (hGone : gone ⊆ others) : Retargeted others before after :=
  let ⟨change, hChange, hAfter⟩ := retargeted
  ⟨change, fun target hTarget => hChange target fun id hId => hTarget id (hGone hId), hAfter⟩

/-- Changes one after the other are a change. -/
theorem trans (first : Retargeted gone before middle) (second : Retargeted gone middle after) :
    Retargeted gone before after := by
  obtain ⟨change, hChange, rfl⟩ := first
  obtain ⟨change', hChange', rfl⟩ := second
  refine ⟨change' ∘ change, fun target hTarget => ?_, mapTargets_mapTargets change change' before⟩
  rw [Function.comp_apply, hChange target hTarget, hChange' target hTarget]

/-- A reference to a node that is gone leads to its destination instead. -/
theorem redirect {target : NodeId} (hTarget : target ∈ gone) (destination : Option NodeId) (operand : Operand) :
    Retargeted gone operand (operand.redirect target destination) := by
  refine ⟨fun named => if named = some target then destination else named, fun named hNamed => ?_, rfl⟩
  exact if_neg (hNamed target hTarget)

end Retargeted

/-! ### The condition of an operand -/

@[simp] theorem condition?_mapCondition (change : Condition → Condition) (operand : Operand) :
    (operand.mapCondition change).condition? = operand.condition?.map change := by
  obtain ⟨_, _, _, _, _, kind⟩ := operand
  cases kind <;> rfl

@[simp] theorem isCondition_mapCondition (change : Condition → Condition) (operand : Operand) :
    (operand.mapCondition change).isCondition = operand.isCondition := by
  simp [isCondition]

theorem isCondition_redirect (operand : Operand) (old : NodeId) (new : Option NodeId) :
    (operand.redirect old new).isCondition = operand.isCondition := by
  obtain ⟨_, _, _, _, _, kind⟩ := operand
  cases kind <;> rfl

/-- An operand that is no condition, or one that the change keeps, stays the same. -/
theorem mapCondition_eq_self {operand : Operand} {change : Condition → Condition}
    (hSame : ∀ test, operand.condition? = some test → change test = test) :
    operand.mapCondition change = operand := by
  obtain ⟨_, _, _, _, _, kind⟩ := operand
  cases kind
  case condition test => exact congrArg (fun test => Operand.mk _ _ _ _ _ (.condition test)) (hSame test rfl)
  all_goals rfl

/-- An operand that is no condition has no target. -/
theorem retarget_eq_self {operand : Operand} (hTest : operand.condition? = none) (old : NodeId) (new : Option NodeId) :
    operand.retarget old new = operand := by
  obtain ⟨_, _, _, _, _, kind⟩ := operand
  cases kind with
  | condition => cases hTest
  | _ => rfl

end Operand

end Decompiler
