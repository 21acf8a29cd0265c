import Decompiler.Decompile
import Decompiler.Proofs.Execution.Idle
import Decompiler.Proofs.Structure.Folded
import Decompiler.Proofs.Structure.Written

/-!
The statements of decompiled units form trees. Going inwards from a statement, or along a chain, comes to nothing
twice and ends. So does writing the unit out if each switch is the value of one operand at most.

Nothing keeps a switch from being the value of more operands. That is a fault of the recognition of switch expressions:
an operand on top of the node where the arms converge may have been copied already, and the node need not be reached by
all arms. Then arms are written for each of the operands, or inside themselves without end.
-/

namespace Decompiler

theorem fold_into {setting : Setting} {unit : CompiledUnit} {body folded : MethodBody} {tree : StructureTree}
    {trace : List TraceEntry} (hBody : (MethodBody.ofUnit unit setting).1 = .ok body)
    (hFold : body.fold setting = (.ok tree, folded, trace)) : Folding.Into folded.graph tree := by
  rw [MethodBody.fold] at hFold
  rcases hRun : (Folding.foldGraph setting).run.run { toMethodBody := body } with ⟨outcome, after⟩
  rw [hRun] at hFold
  cases hFold
  exact Folding.foldGraph_into (MethodBody.progress_ofUnit hBody) hRun

/-- The nodes of a unit were folded into its tree. -/
theorem decompileUnit_into {setting : Setting} {unit : CompiledUnit} {method : DecompiledMethod}
    (hRun : decompileUnit setting unit = .ok method) : Folding.Into method.body.graph method.tree := by
  rw [decompileUnit] at hRun
  cases hBody : (MethodBody.ofUnit unit setting).1 with
  | error fault =>
      rw [hBody] at hRun
      cases hRun
  | ok body =>
      rcases hFold : body.fold setting with ⟨outcome, folded, trace⟩
      rw [hBody] at hRun
      simp only [bind, Except.bind, hFold] at hRun
      cases hEndless : folded.graph.endless with
      | true => simp [hEndless, throw, throwThe, MonadExceptOf.throw] at hRun
      | false =>
          cases outcome with
          | error fault => simp [hEndless] at hRun
          | ok tree =>
              simp only [hEndless, Bool.false_eq_true, if_false, pure, Except.pure, Except.ok.injEq] at hRun
              cases hRun
              exact fold_into hBody hFold

/-- The statements of a unit are a tree. Every chain of statements, and all that lies inside a statement, ends and
comes to no statement twice. What is written from the first statement on does so too, and is written out in full,
if no switch is written at two places. Otherwise it may come to a statement twice or have no end. -/
theorem decompileUnit_tree {setting : Setting} {unit : CompiledUnit} {method : DecompiledMethod}
    (hRun : decompileUnit setting unit = .ok method) :
    let tree := method.tree
    let size := tree.structures.size
    IsForest tree.structures [tree.root] ∧
      (∀ id, (tree.chain id).Nodup ∧ ∀ fuel > size, tree.chainFrom fuel id = tree.chain id) ∧
      (∀ id, (∀ depth, (within tree.inside id depth).Nodup) ∧ level tree.inside id (id + 1) = []) ∧
      (method.SwitchesOnce → ∀ depth > 2 * size, (method.written depth).Nodup ∧
        method.written depth = method.written (2 * size + 1) ∧
        method.code? = some (method.codeWithin depth tree.root)) := by
  have forest := (decompileUnit_into hRun).forest
  refine ⟨forest, fun id => ⟨StructureTree.chain_nodup forest id, fun fuel hFuel => ?_⟩, fun id => ⟨?_, ?_⟩, ?_⟩
  · exact StructureTree.chainFrom_eq_chain forest hFuel id
  · exact StructureTree.within_nodup forest id
  · exact StructureTree.level_eq_nil forest id
  · intro once depth hDepth
    have hNodup := method.written_nodup forest once depth
    exact ⟨hNodup, method.written_eq forest once hDepth, method.code?_eq forest once hDepth⟩

/-! ### Units with a switch expression -/

/-- A method that chooses a number by a switch, up to what is done with the number. -/
def choosing (use : List Event) : CompiledUnit where
  owner := "A"
  name := "m"
  descriptor := "(I)I"
  isStatic := true
  events :=
    [.var .iload 0, .switch 2 [1] [1], .label 1, .frame .same 0 0, .int .bipush 10, .jump .goto 9, .label 2,
      .frame .same 0 0, .int .bipush 20, .label 9, .frame .same1 0 1] ++ use

theorem exists_decompiled {unit : CompiledUnit} {holds : DecompiledMethod → Prop} [DecidablePred holds]
    (hHolds : (decompileUnit {} unit).toOption.any fun method => holds method) :
    ∃ method, decompileUnit {} unit = .ok method ∧ holds method := by
  cases hRun : decompileUnit {} unit with
  | error fault =>
      rw [hRun] at hHolds
      exact absurd hHolds Bool.false_ne_true
  | ok method =>
      rw [hRun] at hHolds
      exact ⟨method, rfl, of_decide_eq_true hHolds⟩

/-- The number is returned, so the arms are written once. -/
theorem decompileUnit_tree_choosing : ∃ method, decompileUnit {} (choosing [.insn .ireturn]) = .ok method ∧
    IsForest method.tree.structures [method.tree.root] ∧ method.SwitchesOnce ∧
    method.written 11 = [.statement 4, .statement 3, .value 0, .statement 1, .statement 2] ∧
    ∀ depth > 10, method.written depth = method.written 11 ∧
      method.code? = some (method.codeWithin depth method.tree.root) := by
  have hChecked : ∃ method, decompileUnit {} (choosing [.insn .ireturn]) = .ok method ∧
      method.SwitchesOnce ∧ method.tree.structures.size = 5 ∧
      method.written 11 = [.statement 4, .statement 3, .value 0, .statement 1, .statement 2] :=
    exists_decompiled (by decide +kernel)
  obtain ⟨method, hRun, once, hSize, hWritten⟩ := hChecked
  obtain ⟨forest, -, -, hAll⟩ := decompileUnit_tree hRun
  simp only [hSize] at hAll
  exact ⟨method, hRun, forest, once, hWritten, fun depth hDepth => (hAll once depth hDepth).2⟩

/-- The text of the switch by which the number is chosen. -/
def choiceText : String :=
  "switch (arg0) \x7b\n    case 1:\n        yield 10;\n    default:\n        yield 20;\n    \x7d"

/-- A fault: the number is copied before it is known to be that of a switch, so the arms are written twice. -/
theorem arms_written_twice : ∃ method,
    decompileUnit {} (choosing [.insn .dup, .insn .iadd, .insn .ireturn]) = .ok method ∧
      ¬(method.written 4).Nodup ∧ (method.written 4).count (.statement 1) = 2 ∧
      method.bodyText? = some ("return " ++ choiceText ++ " + " ++ choiceText ++ ";\n") :=
  exists_decompiled (by decide +kernel)

/-- One arm goes past the node where the other one is thought to converge with it, and that node hands its number to
a call before it goes on. -/
def convergingEarly : CompiledUnit where
  owner := "A"
  name := "m"
  descriptor := "(I)I"
  isStatic := true
  events :=
    [.insn .iconst_3, .var .iload 0, .switch 2 [1] [1], .label 1, .int .bipush 7, .jump .goto 10, .label 2,
      .int .bipush 5, .label 9, .frame .full 0 2, .insn .dup, .method .invokestatic ⟨"A", "f", "(I)V"⟩, .insn .swap,
      .label 10, .insn .ireturn]

/-- A fault: the call becomes part of an arm of the switch that its own argument is taken for. The arm is written
inside itself, so the unit has no text. -/
theorem arm_inside_itself : ∃ method, decompileUnit {} convergingEarly = .ok method ∧
    IsForest method.tree.structures [method.tree.root] ∧
    (∀ depth, level method.holds (.statement method.tree.root) depth ≠ []) ∧ method.listing? = none := by
  have hChecked : ∃ method, decompileUnit {} convergingEarly = .ok method ∧ method.code? = none :=
    exists_decompiled (by decide +kernel)
  obtain ⟨method, hRun, hNone⟩ := hChecked
  have hListing : method.listing? = none := by rw [DecompiledMethod.listing?, hNone, Option.map_none]
  exact ⟨method, hRun, (decompileUnit_into hRun).forest, DecompiledMethod.code?_eq_none_iff.mp hNone, hListing⟩

end Decompiler
