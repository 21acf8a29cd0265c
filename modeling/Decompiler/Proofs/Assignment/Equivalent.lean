import Decompiler.Proofs.Assignment.Memory
import Decompiler.Proofs.Operand.Walk

/-!
Equivalent operands have the same value in every memory, and as targets they are the same location. Copies of one operand
are equivalent by their identity alone, so operands with one identity have to be copies of each other.
-/

namespace Decompiler

namespace Operand

/-- The operand without identities, types and marks. -/
def bare : Operand → Operand := rewrite fun operand => { id := 0, type := .known .unknown, kind := operand.kind }

/-- What occurs in the two operands with one identity is the same apart from types and marks. -/
def ShareCopies (a b : Operand) : Prop := ∀ x ∈ a.walk, ∀ y ∈ b.walk, x.id = y.id → x.bare = y.bare

variable {a b part other : Operand}

theorem ShareCopies.children (copies : ShareCopies a b) (hPart : part ∈ a.children) (hOther : other ∈ b.children) :
    ShareCopies part other := fun _ hx _ hy =>
  copies _ (mem_walk_of_child hPart hx) _ (mem_walk_of_child hOther hy)

theorem kind_bare (operand : Operand) :
    operand.bare.kind =
      operand.kind.rewriteParts fun operand => { id := 0, type := .known .unknown, kind := operand.kind } := by
  cases operand
  rw [bare, rewrite]

end Operand

namespace Assignment

open Operand

variable {memory : Memory} {a b operand : Operand}

/-- Identity, type and marks of the operand itself are not asked for. -/
theorem evaluate_eq (memory : Memory) (operand : Operand) : evaluate memory operand = evaluateKind memory operand.kind := by
  cases operand
  rfl

/-- Identities, types and marks do not matter to the value. -/
theorem evaluate_bare (memory : Memory) (operand : Operand) : evaluate memory operand.bare = evaluate memory operand := by
  induction operand using induction_children with
  | step operand ih =>
      rw [evaluate_eq, evaluate_eq, kind_bare]
      unfold bare at ih
      generalize hKind : operand.kind = kind
      unfold children at ih
      rw [hKind] at ih
      cases kind
      case number value => rfl
      case field _ _ receiver =>
        cases receiver with
        | none => rfl
        | some receiver => simp_all [OperandKind.rewriteParts, evaluateKind]
      all_goals simp_all [OperandKind.rewriteParts, evaluateKind]

/-- They do not matter to the location either. -/
theorem locate_bare (memory : Memory) (operand : Operand) : locate memory operand.bare = locate memory operand := by
  have hPart (part : Operand) := evaluate_bare memory part
  unfold bare at hPart
  rw [locate, locate, kind_bare]
  cases operand.kind
  case field _ _ receiver => cases receiver <;> simp [OperandKind.rewriteParts, hPart]
  all_goals simp [OperandKind.rewriteParts, hPart]

/-- Equivalent operands have one value and are one location. -/
theorem equivalent_means (memory : Memory) (copies : ShareCopies a b) (hEquivalent : a.equivalent b = true) :
    evaluate memory a = evaluate memory b ∧ locate memory a = locate memory b := by
  induction a using induction_children generalizing b with
  | step a ih =>
      have hPart {part other : Operand} (hPart : part ∈ a.children) (hOther : other ∈ b.children)
          (hSame : part.equivalent other = true) : evaluate memory part = evaluate memory other :=
        (ih part hPart (copies.children hPart hOther) hSame).1
      obtain ⟨_, _, _, _, _, kind⟩ := a
      rw [Operand.equivalent.eq_def, Bool.or_eq_true, beq_iff_eq] at hEquivalent
      rcases hEquivalent with hId | hKinds
      · have hBare := copies _ (self_mem_walk _) _ (self_mem_walk _) hId
        rw [← evaluate_bare, ← locate_bare, hBare, evaluate_bare, locate_bare]
        exact ⟨rfl, rfl⟩
      · rw [evaluate_eq, evaluate_eq memory b, locate, locate]
        unfold children at hPart
        split at hKinds
        case h_1 hOther =>
          rw [hOther]
          exact ⟨rfl, rfl⟩
        case h_2 hOther | h_7 hOther =>
          rw [hOther, beq_iff_eq.mp hKinds]
          exact ⟨rfl, rfl⟩
        case h_3 hOther =>
          simp only [Bool.and_eq_true, beq_iff_eq] at hKinds
          rw [hOther, hKinds.1, hKinds.2]
          exact ⟨rfl, rfl⟩
        case h_4 hOther =>
          simp only [Bool.and_eq_true, beq_iff_eq] at hKinds
          rw [hOther] at hPart ⊢
          rw [hKinds.1.1, hKinds.1.2]
          simp only [evaluateKind, hPart (by simp) (by simp) hKinds.2, and_self]
        case h_5 hOther =>
          rw [Bool.and_eq_true] at hKinds
          rw [hOther] at hPart ⊢
          simp only [evaluateKind, hPart (by simp) (by simp) hKinds.1, hPart (by simp) (by simp) hKinds.2, and_self]
        case h_6 hOther =>
          rw [hOther]
          refine ⟨?_, rfl⟩
          unfold Number.same at hKinds
          split at hKinds <;> simp_all [evaluateKind]
        case h_8 => cases hKinds

end Assignment

end Decompiler
