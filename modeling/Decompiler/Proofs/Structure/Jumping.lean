import Decompiler.Proofs.Structure.Standing

/-!
The jumps of decompiled units. A jump leads to where the construct that it names begins anew, or to where control goes
on after it. That construct need not be the innermost one around the jump, nor stand around it at all, but without a
label the jump leads to a node where the innermost one is known. So it names the innermost one if no two constructs
share the node.
-/

namespace Decompiler

open Structure

/-- The construct that a jump names, whether it repeats it, and whether by its label. -/
def Structure.jump? : Structure → Option (BreakableId × Bool × Bool)
  | .breaks id labeled => some (id, false, labeled)
  | .continues id labeled => some (id, true, labeled)
  | _ => none

section Units

variable {setting : Setting} {unit : CompiledUnit} {method : DecompiledMethod} {outer : List BreakableId}
  {id : StructureId} {named : BreakableId} {isContinue labeled : Bool}

/-- A jump leads somewhere and says where, but for the one that ends an arm of a switch at once. -/
theorem decompileUnit_jump (hRun : decompileUnit setting unit = .ok method) (stands : Stands method.tree outer id)
    (hJump : (method.tree.get id).jump? = some (named, isContinue, labeled)) :
    (isContinue = false ∧ labeled = false ∧ outer.head? = some named) ∨
      ∃ target, Leads method.tree.breakables named isContinue target ∧
        Clear method.tree.breakables outer named isContinue labeled target := by
  have fits := stands.fits (decompileUnit_into hRun).enclosed
  cases hStatement : method.tree.get id with
  | breaks other label =>
      rw [hStatement] at fits hJump
      cases hJump
      exact fits.imp_left fun ⟨hHead, hLabel⟩ => ⟨rfl, hLabel, hHead⟩
  | continues other label =>
      rw [hStatement] at fits hJump
      cases hJump
      exact .inr fits
  | _ => simp [hStatement, jump?] at hJump

/-- The construct that a jump names by its label is written with the label. -/
theorem decompileUnit_labels (hRun : decompileUnit setting unit = .ok method) (stands : Stands method.tree outer id)
    (hJump : (method.tree.get id).jump? = some (named, isContinue, true)) :
    method.tree.label? named = some (method.tree.breakable named).label := by
  rcases decompileUnit_jump hRun stands hJump with ⟨-, hLabeled, -⟩ | ⟨target, -, clear⟩
  · cases hLabeled
  · exact if_pos clear

/-- A jump without a label names the construct that it means without one, if the node that it leads to has to do with
no other construct. -/
theorem decompileUnit_innermost (hRun : decompileUnit setting unit = .ok method) (stands : Stands method.tree outer id)
    (hJump : (method.tree.get id).jump? = some (named, isContinue, false))
    (hAlone : ∀ target other, Leads method.tree.breakables named isContinue target →
      target ∈ (method.tree.breakable other).places → other = named) :
    ∀ inner ∈ innermost? method.tree.breakables outer isContinue, inner = named := by
  intro inner hInner
  rcases decompileUnit_jump hRun stands hJump with ⟨rfl, -, hHead⟩ | ⟨target, leads, clear⟩
  · exact Option.some.inj ((Option.mem_def.mp hInner).symm.trans hHead)
  · exact hAlone target inner leads (clear inner hInner)

end Units

/-- Three loops inside each other. The innermost one is left at its end only, to where the outermost one is tested. -/
def nestedLoops : CompiledUnit where
  owner := "A"
  name := "m"
  descriptor := "(III)V"
  isStatic := true
  events :=
    [.label 0, .frame .same 0 0, .var .iload 0, .jump .ifeq 5, .label 1, .frame .same 0 0,
      .method .invokestatic { owner := "A", name := "f", descriptor := "()V" }, .label 2, .frame .same 0 0,
      .method .invokestatic { owner := "A", name := "g", descriptor := "()V" }, .var .iload 1, .jump .ifne 2, .label 3,
      .frame .same 0 0, .var .iload 2, .jump .ifne 1, .jump .goto 0, .label 5, .frame .same 0 0, .insn .vreturn]

/-- A jump beside the loop that it names, in the body of the outermost one. Both loops have to do with the node that it
leads to: it is the exit of the one and the header of the other. -/
theorem jump_beside_loop : ∃ method, decompileUnit {} nestedLoops = .ok method ∧ Stands method.tree [0] 7 ∧
    (method.tree.get 7).jump? = some (2, false, false) ∧ (method.tree.breakable 2).exit = some 0 ∧
    (method.tree.breakable 0).entrance = 0 := by
  have hChecked : ∃ method, decompileUnit {} nestedLoops = .ok method ∧ method.tree.root = 10 ∧
      8 ∈ (method.tree.get 10).nested ∧ (method.tree.get 10).around [] = [0] ∧ (method.tree.get 8).follow? = some 7 ∧
      (method.tree.get 7).jump? = some (2, false, false) ∧ (method.tree.breakable 2).exit = some 0 ∧
      (method.tree.breakable 0).entrance = 0 := exists_decompiled (by decide +kernel)
  obtain ⟨method, hRun, hRoot, hBody, hAround, hFollow, hJump⟩ := hChecked
  have stands : Stands method.tree [] 10 := hRoot ▸ .root
  exact ⟨method, hRun, .follow (hAround ▸ stands.inside hBody) hFollow, hJump⟩

end Decompiler
