import Decompiler.Operand.Traversal
import Mathlib.Data.Option.Basic

/-!
What a walk over an operand meets: the operand itself and what a walk over one of its parts meets.
-/

namespace Decompiler.Operand

variable {operand part inner : Operand}

/-- A walk over several operands walks each of them in turn. -/
theorem walkAll_eq_flatMap (operands : List Operand) : walkAll operands = operands.flatMap walk := by
  induction operands with
  | nil => rfl
  | cons first rest ih => rw [walkAll, ih, List.flatMap_cons]

/-- The constructors list their parts in the order in which a walk comes to them. -/
theorem walkParts_eq_flatMap (operand : Operand) : operand.kind.walkParts = operand.children.flatMap walk := by
  obtain ⟨_, _, _, _, _, kind⟩ := operand
  cases kind
  case condition test => cases test; simp [children, OperandKind.walkParts, Condition.walkSides]
  case newArray _ _ values =>
    cases values <;> simp [children, OperandKind.walkParts, walkInitializers, walkAll_eq_flatMap]
  case call _ _ _ value _ _ | field _ _ value | methodReference _ _ value | returns value | asserts _ value =>
    cases value <;> simp [children, OperandKind.walkParts, walkOption, walkAll_eq_flatMap]
  all_goals simp [children, OperandKind.walkParts, walkAll_eq_flatMap]

/-- What a walk meets after the operand itself it meets within a part. -/
theorem mem_walkParts (operand : Operand) :
    inner ∈ operand.kind.walkParts ↔ ∃ part ∈ operand.children, inner ∈ part.walk := by
  rw [walkParts_eq_flatMap, List.mem_flatMap]

theorem walk_eq (operand : Operand) : operand.walk = operand :: operand.kind.walkParts := by
  cases operand
  rw [walk]

theorem self_mem_walk (operand : Operand) : operand ∈ operand.walk := by simp [walk_eq]

/-- What a walk meets within a part it meets within the whole. -/
theorem mem_walk_of_child (hPart : part ∈ operand.children) (hInner : inner ∈ part.walk) : inner ∈ operand.walk := by
  rw [walk_eq]
  exact List.mem_cons_of_mem _ ((mem_walkParts operand).mpr ⟨part, hPart, hInner⟩)

/-- Only a condition is read as a test. -/
theorem condition?_eq_some {test : Condition} (hTest : operand.condition? = some test) :
    operand.kind = .condition test := by
  unfold condition? at hTest
  split at hTest
  · next hKind => exact hKind.trans (congrArg _ (Option.some.inj hTest))
  · cases hTest

end Decompiler.Operand
