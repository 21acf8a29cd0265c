import Decompiler.Proofs.Arithmetic.Assignment
import Decompiler.Proofs.Arithmetic.Step

/-!
Loads, stores and increments of locals in orderly code. The increment of a local becomes a part of the load before or
after it, and an assignment whose value is used stays on the stack as that value.
-/

namespace Decompiler.Arithmetic

open Execution

variable {setting : Setting} {block : Block} {shape next : Shape} {run : Locals → Option Machine} {slot : UInt16}
  {operand top : Operand} {rest : List Operand} {entries : List Entry} {amount : Int32}

/-! ### Loads -/

/-- The latest instructions are the increment of a local and a load of it. -/
def rereads (block : Block) : Bool :=
  (InstructionHistory.ofCodes block.codes).endsInTemplate [Opcode.iinc, Opcode.iload] &&
    (SlotHistory.ofSlots block.touched).repeats

theorem yields_variableAt {id : VariableId} {locals : LocalVariables} {supply : Supply}
    (hVariable : (block.locals.variableAt slot .int).run block.supply = ((id, locals), supply)) :
    Yields setting (withVariables (·.variableAt slot .int)) block.execution id
      { block with supply, locals }.execution := by
  have hStep : Yields setting (withVariables (·.variableAt slot .int)) block.execution _ _ :=
    Block.yields_withVariables _
  rw [hVariable] at hStep
  exact hStep

/-- An increment that is a value already is not read again. -/
theorem yields_reuseIncrement_false (block : Block) (ints : IntTable block.locals)
    (hTypes : IntCells block.supply.types)
    (hTop : rereads block = true → ∀ top ∈ block.stack.reverse.head?, top.statement = false) (slot : UInt16) :
    ∃ locals types, Yields setting (reuseIncrement .iload slot) block.execution false
        { block with locals, supply := { block.supply with types } }.execution ∧
      IntTable locals ∧ IntCells types ∧ ∀ slots, Agrees slots locals → Agrees slots block.locals := by
  cases hRereads : rereads block with
  | false =>
      refine ⟨block.locals, block.supply.types, Block.yields_reuseIncrement_of_not ?_, ints, hTypes, fun _ h => h⟩
      exact hRereads
  | true =>
      obtain ⟨id, locals, types, hVariable, -, hLocals, hCells, hAgrees⟩ := ints.variableAt hTypes slot
      refine ⟨locals, types, ?_, hLocals, hCells, hAgrees⟩
      have hApplies : (Opcode.iload == .iload && block.execution.history.endsInTemplate [Opcode.iinc, Opcode.iload] &&
        block.execution.slots.repeats) = true := hRereads
      refine Yields.bind (yields_endsIn _ _) (Yields.bind (yields_get _) ?_)
      simp only [hApplies, Bool.not_true, Bool.false_eq_true, ↓reduceIte]
      refine Yields.bind (yields_variableAt hVariable) (Yields.bind rfl (Yields.bind Block.yields_peek? ?_))
      dsimp only
      cases hLast : block.stack.getLast? with
      | none => exact yields_pure _ _
      | some top =>
          have hValue : top.statement = false := by
            refine hTop hRereads top ?_
            rw [List.head?_reverse, hLast]
            rfl
          simp only [hValue, Bool.false_and]
          exact yields_pure _ _

/-- The increment of the local on top of the stack becomes a value. -/
theorem yields_reuseIncrement_true {id : VariableId} (hRereads : rereads block = true)
    (hFound : Found block.locals slot id) (hStack : block.stack.reverse = top :: rest)
    (hStatement : top.statement = true) (hId : top.references id = true) :
    ∃ enclosed, Yields setting (reuseIncrement .iload slot) block.execution true
      { block with stack := (({ top with statement := false, enclosed } : Operand) :: rest).reverse }.execution := by
  have hTop : block.stack = rest.reverse ++ [top] := stack_eq hStack
  have hApplies : (Opcode.iload == .iload && block.execution.history.endsInTemplate [Opcode.iinc, Opcode.iload] &&
    block.execution.slots.repeats) = true := hRereads
  have hVariable : Yields setting (withVariables (·.variableAt slot .int)) block.execution id block.execution :=
    yields_variableAt (LocalVariables.variableAt_of_find? hFound.find block.supply)
  have hChange (enclosed : Bool) : Yields setting (do
        changeEntry 0 fun top => { top with statement := false, enclosed }
        return true) block.execution true
      { block with stack := (({ top with statement := false, enclosed } : Operand) :: rest).reverse }.execution := by
    rw [List.reverse_cons]
    exact Yields.bind (Block.yields_changeEntry hTop _) (yields_pure _ _)
  apply Exists.intro
  refine Yields.bind (yields_endsIn _ _) (Yields.bind (yields_get _) ?_)
  simp only [hApplies, Bool.not_true, Bool.false_eq_true, ↓reduceIte]
  refine Yields.bind hVariable (Yields.bind rfl (Yields.bind Block.yields_peek? ?_))
  simp only [hTop, List.getLast?_concat, hStatement, hId, Bool.and_self, ↓reduceIte]
  exact hChange _

namespace Tracks

/-- A load after an increment of the same local reads the increment. -/
theorem loadStep (tracks : Tracks shape block run) (hLast : shape.last = .step slot) :
    ∃ after, Runs setting [.var .iload slot] block after ∧
      Tracks { entries := .value [slot] [slot] :: shape.entries.tail } after (following run (.load slot)) := by
  have hRecalls := tracks.recalls
  rw [hLast] at hRecalls
  obtain ⟨hCode, hTouched, below, top, rest, id, amount, hEntries, hStack, hStatement, hSingle, hLocal, hId, hFound,
    hComputes⟩ := hRecalls
  have hRereads : rereads { block with codes := .iload :: block.codes, touched := slot :: block.touched } = true := by
    rw [rereads, InstructionHistory.endsInTemplate_pair, SlotHistory.repeats_ofSlots, hCode, hTouched]
    simp [Pattern.accepts]
  have hReuse : ∃ enclosed, Yields setting (reuseIncrement .iload slot)
      { block with codes := .iload :: block.codes, touched := slot :: block.touched }.execution true _ :=
    yields_reuseIncrement_true hRereads hFound hStack hStatement hId
  obtain ⟨enclosed, hReuse⟩ := hReuse
  refine ⟨_, .single rfl (Yields.bind (Block.yields_record .iload) (Yields.bind (Block.yields_touch slot)
    (Yields.bind hReuse (yields_pure _ _)))), ?_⟩
  have hKnown : ∀ operand ∈ top :: rest, Known block.supply operand := hStack ▸ tracks.plain.operands
  have known : Known block.supply top := hKnown top List.mem_cons_self
  refine tracks.advance (by decide) tracks.plain.locals (fun _ hAgrees => hAgrees) tracks.plain.types ?_ ⟨?_, nofun⟩ ?_
  · exact Known.cons (Nat.le_refl _) (fun operand hOperand => hKnown operand (List.mem_cons_of_mem _ hOperand))
      ⟨known.type, known.id, known.left⟩
  · intro _ operand hOperand
    rw [List.reverse_reverse] at hOperand
    obtain rfl := Option.some.inj hOperand
    exact hLocal
  · intro slots hSlots reach mirrors
    rw [hStack, hEntries] at mirrors
    rw [hEntries]
    exact mirrors.reuse (hComputes slots hSlots) rfl rfl hSingle

/-- Unless the latest instruction left an increment of the local as a statement, no statement is on top. -/
theorem top_of_rereads (tracks : Tracks shape block run) (hLast : shape.last ≠ .step slot)
    (hRereads : rereads { block with codes := .iload :: block.codes, touched := slot :: block.touched } = true) :
    ∀ top ∈ block.stack.reverse.head?, top.statement = false := by
  rw [rereads, InstructionHistory.endsInTemplate_pair, SlotHistory.repeats_ofSlots] at hRereads
  simp only [Bool.and_eq_true, beq_iff_eq, Option.any_eq_true, Pattern.accepts] at hRereads
  obtain ⟨⟨-, op, hCode, rfl⟩, hTouched⟩ := hRereads
  have hRecalls := tracks.recalls
  cases hShape : shape.last with
  | load other =>
      rw [hShape] at hRecalls
      cases hRecalls.1.symm.trans hCode
  | step other =>
      rw [hShape] at hRecalls
      obtain rfl : other = slot := Option.some.inj (hRecalls.2.1.symm.trans hTouched)
      exact absurd hShape hLast
  | other =>
      rw [hShape] at hRecalls
      exact hRecalls.2 hCode

/-- Any other load puts the local on the stack. -/
theorem loadLocal (tracks : Tracks shape block run) (hLast : shape.last ≠ .step slot) :
    ∃ after, Runs setting [.var .iload slot] block after ∧
      Tracks { entries := .value [slot] [] :: shape.entries, last := .load slot } after
        (following run (.load slot)) := by
  let entered : Block := { block with codes := .iload :: block.codes, touched := slot :: block.touched }
  obtain ⟨locals, types, hReuse, hLocals, hTypes, hAgrees⟩ :=
    yields_reuseIncrement_false entered tracks.plain.locals tracks.plain.types (tracks.top_of_rereads hLast) slot
  have hCells : IntCells ({ block.supply with types } : Supply).types := hTypes
  obtain ⟨id, locals', types', hVariable, hFound, hLocals', hTypes', hAgrees'⟩ := hLocals.variableAt hCells slot
  let reused : Block := { entered with locals, supply := { block.supply with types } }
  have hVariable : (reused.locals.variableAt slot ((SlotKind.ofOpcode? .iload).getD .reference)).run reused.supply =
      ((id, locals'), { nextId := block.supply.nextId, types := types' }) := hVariable
  let operand : Operand := locals'.operand id block.supply.nextId
  have hPush : Yields setting (do push (← withVariables (·.load slot .iload))) reused.execution ()
      { entered with
        stack := (operand :: block.stack.reverse).reverse
        supply := { nextId := block.supply.nextId + 1, types := types' }, locals := locals' }.execution := by
    rw [List.reverse_cons, List.reverse_reverse]
    exact Block.yields_pushLocal (hLocals.isThis slot) hVariable
  refine ⟨_, .single rfl (Yields.bind (Block.yields_record .iload) (Yields.bind (Block.yields_touch slot)
    (Yields.bind hReuse hPush))), ?_⟩
  refine tracks.advance (by decide) hLocals' (fun slots h => hAgrees slots (hAgrees' slots h)) hTypes' ?_ ?_ ?_
  · exact Known.cons (Nat.le_succ _) tracks.plain.operands
      ⟨hLocals'.type_of_lt hFound.lt, Nat.lt_succ_self _, nofun⟩
  · exact ⟨rfl, rfl, shape.entries, operand, _, id, rfl, List.reverse_reverse _, rfl, hFound⟩
  · intro slots hSlots reach mirrors
    have hSlot : slots id = slot := (hSlots id hFound.lt).trans hFound.slot
    exact mirrors.load rfl rfl (hSlot ▸ .localVariable rfl)

theorem load (tracks : Tracks shape block run) (hNext : shape.step (.load slot) = some next) :
    ∃ after, Runs setting [.var .iload slot] block after ∧ Tracks next after (following run (.load slot)) := by
  simp only [Shape.step] at hNext
  split at hNext
  · next hLast =>
      obtain rfl := Option.some.inj hNext
      exact tracks.loadStep hLast
  · next hLast =>
      obtain rfl := Option.some.inj hNext
      exact tracks.loadLocal hLast

end Tracks

/-! ### Stores -/

/-- What the store of the operand on top of the stack leaves. -/
theorem yields_storeLocal (setting : Setting) (block : Block) (ints : IntTable block.locals)
    (hTypes : IntCells block.supply.types) (hStack : block.stack.reverse = top :: rest)
    (known : Known block.supply top) (slot : UInt16) :
    ∃ operand id locals supply, Yields setting (storeLocal .istore slot) block.execution ()
        { block with stack := (operand :: rest).reverse, supply, locals }.execution ∧
      Found locals slot id ∧ IntTable locals ∧ IntCells supply.types ∧ block.supply.nextId ≤ supply.nextId ∧
      Known supply operand ∧ operand.duplicated = false ∧ operand.statement = !top.duplicated ∧
      (∀ slots, Agrees slots locals → Agrees slots block.locals) ∧
      ∀ slots f, Computes slots (single top) f → Stores slots id top.duplicated f operand := by
  obtain ⟨id, locals, types, hStore, hFound, hLocals, hCells, hAgrees⟩ := ints.store hTypes slot known.type
  let target : Operand := locals.operand id block.supply.nextId
  let taken : Block := { block with stack := rest.reverse }
  let targeted : Block := { taken with supply := { nextId := block.supply.nextId + 1, types }, locals }
  have hTarget : Yields setting (withVariables (·.store slot .istore top)) taken.execution target
      targeted.execution := by
    have hStep : Yields setting (withVariables (·.store slot .istore top)) taken.execution _ _ :=
      Block.yields_withVariables _
    rw [show (taken.locals.store slot .istore top).run taken.supply = _ from hStore] at hStep
    exact hStep
  have hType : targeted.graph.typeOf target = .int ∨ targeted.graph.typeOf target = .unknown :=
    hCells.typeOf (hLocals.type_of_lt hFound.lt)
  have hTargeted : IntCells targeted.supply.types := hCells
  obtain ⟨types', hCoerce, hCells'⟩ := hTargeted.coerce (single top) hType
  let coerced : Block := { targeted with supply := { targeted.supply with types := types' } }
  have hStored : Yields setting ((single top).coerce (targeted.graph.typeOf target) : ExecutionM Operand)
      targeted.execution (single top) coerced.execution := by
    have hStep : Yields setting ((single top).coerce (targeted.graph.typeOf target) : ExecutionM Operand)
      targeted.execution _ _ := Block.yields_supply _
    rw [hCoerce] at hStep
    exact hStep
  have hFresh (left : Operand) (operator : BinaryOperator) (right : Operand)
      (hKind : (single top).kind = .binary left operator right) : left.id ≠ target.id :=
    Nat.ne_of_lt (known.left left operator right hKind)
  obtain ⟨operand, hAssign, hId, hRef, hSingle, hStatement, hKind, hStores⟩ :=
    yields_assign coerced top.duplicated (rfl : target.kind = .localVariable id false) hFresh
  have hStack' : (operand :: rest).reverse = coerced.stack ++ [operand] := List.reverse_cons
  refine ⟨operand, id, locals, { nextId := block.supply.nextId + 2, types := types' }, ?_, hFound, hLocals, hCells',
    Nat.le_add_right _ _, ⟨?_, ?_, fun left operator right h => absurd h (hKind left operator right)⟩, hSingle,
    hStatement, hAgrees, hStores⟩
  · rw [hStack']
    refine Yields.bind Block.yields_here (Yields.bind Block.yields_peek? (Yields.bind (yields_get _) ?_))
    refine Yields.bind rfl (Yields.bind (Block.yields_take (stack_eq hStack)) (Yields.bind hTarget
      (Yields.bind (yields_typeOf _ _) (Yields.bind hStored hAssign))))
  · rw [hRef]
    exact hLocals.type_of_lt hFound.lt
  · rw [hId]
    exact Nat.lt_succ_self _

namespace Tracks

theorem store (tracks : Tracks shape block run) (hNext : shape.step (.store slot) = some next) :
    ∃ after, Runs setting [.var .istore slot] block after ∧ Tracks next after (following run (.store slot)) := by
  obtain ⟨top, rest, hStack⟩ := tracks.exists_pending <| (Shape.step_store hNext).imp
    (fun ⟨_, _, _, hEntries, _⟩ => ⟨_, _, _, hEntries⟩) fun ⟨_, _, _, hEntries, _⟩ => ⟨_, _, _, hEntries⟩
  have hKnown : ∀ operand ∈ top :: rest, Known block.supply operand := hStack ▸ tracks.plain.operands
  let entered : Block := { block with codes := .istore :: block.codes, touched := slot :: block.touched }
  obtain ⟨operand, id, locals, supply, hStore, hFound, hLocals, hTypes, hNextId, hOperand, hSingle, hStatement, hAgrees,
    hStores⟩ := yields_storeLocal setting entered tracks.plain.locals tracks.plain.types hStack
      (hKnown top List.mem_cons_self) slot
  refine ⟨_, .single rfl (Yields.bind (Block.yields_record .istore) (Yields.bind (Block.yields_touch slot) hStore)), ?_⟩
  have hRest : ∀ other ∈ operand :: rest, Known supply other :=
    Known.cons hNextId (fun operand hOperand => hKnown operand (List.mem_cons_of_mem _ hOperand)) hOperand
  rcases Shape.step_store hNext with ⟨reads, writes, below, hEntries, rfl⟩ | ⟨reads, writes, below, hEntries, rfl⟩
  · refine tracks.advance (by decide) hLocals hAgrees hTypes hRest (recalls_other nofun nofun) ?_
    intro slots hSlots reach mirrors
    rw [hStack, hEntries] at mirrors
    obtain ⟨_, _, hSame, hTopSingle⟩ := mirrors.top_of_value
    cases hSame
    refine mirrors.store (fun f hValue => ?_) (by rw [hStatement, hTopSingle, Bool.not_false])
    obtain ⟨g, hComputes, hEffect, -⟩ := hStores slots f hValue
    rw [(hSlots id hFound.lt).trans hFound.slot] at hEffect
    exact ⟨g, hComputes, hEffect⟩
  · refine tracks.advance (by decide) hLocals hAgrees hTypes hRest (recalls_other nofun nofun) ?_
    intro slots hSlots reach mirrors
    rw [hStack, hEntries] at mirrors
    obtain ⟨_, _, hSame, hDouble⟩ := mirrors.top_of_double
    cases hSame
    refine mirrors.storeDouble (fun f hValue => ?_) (by rw [hStatement, hDouble, Bool.not_true]) hSingle
    obtain ⟨g, hComputes, -, hUsed⟩ := hStores slots f hValue
    rw [hUsed hDouble, (hSlots id hFound.lt).trans hFound.slot] at hComputes
    exact hComputes

end Tracks

/-! ### Increments -/

/-- The local on top of the stack was loaded by the instruction before its increment. -/
def changesLoaded (block : Block) (id : VariableId) : Bool :=
  (InstructionHistory.ofCodes block.codes).endsInTemplate [Opcode.iload, Opcode.iinc] &&
    (SlotHistory.ofSlots block.touched).repeats &&
      block.stack.getLast?.any fun top => top.asLocal? == some id && !top.statement

/-- An increment finds its variable, and how the variable changes is settled by the latest instructions. -/
theorem yields_iinc (setting : Setting) (block : Block) {id : VariableId} {locals : LocalVariables} {types : TypeCells}
    {after : Block} (amount : Int32)
    (hVariable : (block.locals.variableAt slot .int).run block.supply = ((id, locals), { block.supply with types }))
    (hChange : Yields setting
      (changeLocal (locals.operand id block.supply.nextId) amount
        (changesLoaded { block with codes := .iinc :: block.codes, touched := slot :: block.touched } id))
      { block with
        supply := { nextId := block.supply.nextId + 1, types }, locals, codes := .iinc :: block.codes
        touched := slot :: block.touched }.execution () after.execution) :
    Yields setting (iinc slot amount) block.execution () after.execution := by
  let entered : Block := { block with codes := .iinc :: block.codes, touched := slot :: block.touched }
  have hFind : Yields setting (withVariables (·.variableAt slot .int)) entered.execution id _ :=
    yields_variableAt hVariable
  refine Yields.bind (Block.yields_record .iinc) (Yields.bind (Block.yields_touch slot) (Yields.bind hFind
    (Yields.bind (yields_get _) (Yields.bind (Block.yields_supply _) (Yields.bind Block.yields_peek?
      (Yields.bind (yields_endsIn _ _) (Yields.bind (yields_get _) ?_)))))))
  exact hChange

/-- The operand is the increment of the variable, as a statement. -/
structure IsIncrement (supply : Supply) (id : VariableId) (amount : Int32) (operand : Operand) : Prop where
  known : Known supply operand
  statement : operand.statement = true
  single : operand.duplicated = false
  noLocal : operand.asLocal? = none
  references : operand.references id = true
  computes : ∀ slots, Computes slots operand (.increment (slots id) amount false)

/-- An operand that changes a local mentions it. -/
theorem references_of_target {target operand : Operand} {id : VariableId}
    (hTarget : target.kind = .localVariable id false)
    (hKind : (∃ operator, operand.kind = .unary operator target) ∨
      ∃ operator value, operand.kind = .assign target operator value) : operand.references id = true := by
  have hMentions : target.mentions id = true := by
    rw [Operand.mentions, hTarget]
    exact beq_self_eq_true id
  have hSelf : target ∈ target.walk := by
    cases target
    rw [Operand.walk]
    exact List.mem_cons_self
  refine List.any_eq_true.mpr ⟨target, ?_, hMentions⟩
  obtain ⟨_, _, _, _, _, _⟩ := operand
  rcases hKind with ⟨operator, rfl⟩ | ⟨operator, value, rfl⟩
  · rw [Operand.walk, OperandKind.walkParts]
    exact List.mem_cons_of_mem _ hSelf
  · rw [Operand.walk, OperandKind.walkParts]
    exact List.mem_cons_of_mem _ (List.mem_append_left _ hSelf)

/-- Only a step by one has an operator of its own. -/
theorem ofStep?_eq_none {after : Bool} (hUp : amount ≠ 1) (hDown : amount ≠ -1) :
    UnaryOperator.ofStep? amount.toInt after = none := by
  have hUp' : amount.toInt ≠ 1 := fun hSame => hUp (Int32.toInt_inj.mp hSame)
  have hDown' : amount.toInt ≠ -1 := fun hSame => hDown (Int32.toInt_inj.mp hSame)
  unfold UnaryOperator.ofStep?
  split
  · next hSame => exact absurd hSame hUp'
  · next hSame => exact absurd hSame hUp'
  · next hSame => exact absurd hSame hDown'
  · next hSame => exact absurd hSame hDown'
  · rfl

/-- The forms of an increment that is a statement. -/
theorem yields_changeLocal (setting : Setting) (block : Block) {target : Operand} {id : VariableId} {amount : Int32}
    {after : Bool} (hTypes : IntCells block.supply.types) (hTarget : target.kind = .localVariable id false)
    (hType : IsInt target.type) (hAfter : after = true → UnaryOperator.ofStep? amount.toInt true = none) :
    ∃ operand supply, Yields setting (changeLocal target amount after) block.execution ()
        { block with stack := (operand :: block.stack.reverse).reverse, supply }.execution ∧
      IsIncrement supply id amount operand ∧ IntCells supply.types ∧ block.supply.nextId ≤ supply.nextId := by
  cases hStep : UnaryOperator.ofStep? amount.toInt after with
  | some operator =>
      have hApart : after = false := by
        rw [Bool.eq_false_iff]
        rintro rfl
        rw [hAfter rfl] at hStep
        cases hStep
      subst hApart
      refine ⟨{ id := block.supply.nextId, type := target.type, statement := true, kind := .unary operator target },
        { block.supply with nextId := block.supply.nextId + 1 }, ?_,
        ⟨⟨hType, Nat.lt_succ_self _, nofun⟩, rfl, rfl, rfl, references_of_target hTarget (.inl ⟨operator, rfl⟩),
        fun slots => .step rfl hTarget hStep⟩, hTypes, Nat.le_succ _⟩
      rw [changeLocal, hStep]
      exact Yields.bind (Block.yields_supply _) (yields_push_top _ _)
  | none =>
      obtain ⟨operator, constant, hForm, hAmount⟩ : ∃ operator constant,
          (if amount < 0 then (.subtract, -amount) else (.add, amount) : AssignOperator × Int32) =
              (operator, constant) ∧
            (operator = .add ∧ constant = amount ∨ operator = .subtract ∧ constant = -amount) := by
        split
        · exact ⟨_, _, rfl, .inr ⟨rfl, rfl⟩⟩
        · exact ⟨_, _, rfl, .inl ⟨rfl, rfl⟩⟩
      let value : Operand :=
        { id := block.supply.nextId, type := .cell block.supply.types.cells.size, kind := .number (.int constant) }
      refine ⟨{ id := block.supply.nextId + 1, type := target.type, statement := true
                kind := .assign target operator value },
        { nextId := block.supply.nextId + 2, types := (block.supply.types.add .int false).2 }, ?_,
        ⟨⟨hType, Nat.lt_succ_self _, nofun⟩, rfl, rfl, rfl, references_of_target hTarget (.inr ⟨operator, value, rfl⟩),
        fun slots => .adjust rfl hTarget rfl hAmount⟩, hTypes.add, Nat.le_add_right _ _⟩
      rw [changeLocal, hStep]
      simp only [hForm]
      exact Yields.bind (Block.yields_supply _) (Yields.bind (Block.yields_supply _) (yields_push_top _ _))

namespace Tracks

/-- The increment of a local that was just loaded changes it after the load. -/
theorem incrementAfter (tracks : Tracks shape block run) (hLast : shape.last = .load slot)
    (hAmount : amount = 1 ∨ amount = -1) :
    ∃ after, Runs setting [.iinc slot amount] block after ∧
      Tracks { entries := .value [slot] [slot] :: shape.entries.tail } after
        (following run (.increment slot amount)) := by
  have hRecalls := tracks.recalls
  rw [hLast] at hRecalls
  obtain ⟨hCode, hTouched, below, top, rest, id, hEntries, hStack, hLocal, hFound⟩ := hRecalls
  obtain ⟨slots, reach, mirrors⟩ := tracks.canonical
  rw [hStack, hEntries] at mirrors
  obtain ⟨_, _, hSame, hSingle⟩ := mirrors.top_of_value
  obtain ⟨_, _, hSame', hValue⟩ := mirrors.exists_top rfl
  cases hSame
  cases hSame'
  obtain ⟨operator, hOperator⟩ : ∃ operator, UnaryOperator.ofStep? amount.toInt true = some operator := by
    rcases hAmount with rfl | rfl <;> exact ⟨_, rfl⟩
  let entered : Block := { block with codes := .iinc :: block.codes, touched := slot :: block.touched }
  have hChanges : changesLoaded entered id = true := by
    rw [changesLoaded, InstructionHistory.endsInTemplate_pair, SlotHistory.repeats_ofSlots, hCode, hTouched,
      show entered.stack = rest.reverse ++ [top] from stack_eq hStack, List.getLast?_concat]
    simp [Pattern.accepts, Operand.asLocal?, hLocal, hValue]
  let operand : Operand :=
    { id := block.supply.nextId + 1, type := (block.locals.get id).type, kind := .unary operator top }
  have hChange : Yields setting
      (changeLocal (block.locals.operand id block.supply.nextId) amount (changesLoaded entered id))
      { entered with supply := { block.supply with nextId := block.supply.nextId + 1 } }.execution ()
      { entered with
        stack := (operand :: rest).reverse
        supply := { block.supply with nextId := block.supply.nextId + 2 } }.execution := by
    have hTop : entered.stack = rest.reverse ++ [top] := stack_eq hStack
    rw [hChanges, changeLocal, hOperator, List.reverse_cons]
    exact Yields.bind (Block.yields_pop hTop hSingle) (Yields.bind (Block.yields_supply _) (Block.yields_push _))
  refine ⟨_, .single rfl (yields_iinc setting block amount
    (LocalVariables.variableAt_of_find? hFound.find block.supply) hChange), ?_⟩
  have hKnown : ∀ operand ∈ top :: rest, Known block.supply operand := hStack ▸ tracks.plain.operands
  have hType : IsInt (block.locals.get id).type := tracks.plain.locals.type_of_lt hFound.lt
  refine tracks.advance (by decide) tracks.plain.locals (fun _ hAgrees => hAgrees) tracks.plain.types ?_ ⟨nofun, ?_⟩ ?_
  · exact Known.cons (Nat.le_add_right _ _) (fun operand hOperand => hKnown operand (List.mem_cons_of_mem _ hOperand))
      ⟨hType, Nat.lt_succ_self _, nofun⟩
  · intro _ top hTop
    rw [List.reverse_reverse] at hTop
    obtain rfl := Option.some.inj hTop
    rfl
  · intro slots hSlots reach mirrors
    have hSlot : slots id = slot := (hSlots id hFound.lt).trans hFound.slot
    rw [hStack, hEntries] at mirrors
    rw [hEntries]
    exact mirrors.incrementAfter (hSlot ▸ .localVariable hLocal) (hSlot ▸ .step rfl hLocal hOperator) rfl rfl

/-- A loaded local that the increment changes after its use was loaded by the latest instruction. -/
theorem last_of_changesLoaded (tracks : Tracks shape block run) {id : VariableId}
    (hChanges : changesLoaded { block with codes := .iinc :: block.codes, touched := slot :: block.touched } id) :
    shape.last = .load slot := by
  rw [changesLoaded, InstructionHistory.endsInTemplate_pair, SlotHistory.repeats_ofSlots] at hChanges
  simp only [Bool.and_eq_true, beq_iff_eq, Option.any_eq_true, Pattern.accepts, Bool.not_eq_true'] at hChanges
  obtain ⟨⟨⟨-, op, hCode, rfl⟩, hTouched⟩, top, hTop, hLocal, -⟩ := hChanges
  have hRecalls := tracks.recalls
  cases hShape : shape.last with
  | load other =>
      rw [hShape] at hRecalls
      rw [Option.some.inj (hRecalls.2.1.symm.trans hTouched)]
  | step other =>
      rw [hShape] at hRecalls
      cases hRecalls.1.symm.trans hCode
  | other =>
      rw [hShape] at hRecalls
      have hNone := hRecalls.1 hCode top (by rw [List.head?_reverse]; exact hTop)
      rw [hNone] at hLocal
      cases hLocal

/-- Any other increment is a statement. -/
theorem incrementLocal (tracks : Tracks shape block run)
    (hLast : ¬(shape.last = .load slot ∧ (amount = 1 ∨ amount = -1))) :
    ∃ after, Runs setting [.iinc slot amount] block after ∧
      Tracks { entries := .finished [slot] [slot] :: shape.entries, last := .step slot } after
        (following run (.increment slot amount)) := by
  obtain ⟨id, locals, types, hVariable, hFound, hLocals, hTypes, hAgrees⟩ :=
    tracks.plain.locals.variableAt tracks.plain.types slot
  let found : Block :=
    { block with
      supply := { nextId := block.supply.nextId + 1, types }, locals, codes := .iinc :: block.codes
      touched := slot :: block.touched }
  have hAfter (hChanges : changesLoaded found id = true) : UnaryOperator.ofStep? amount.toInt true = none := by
    have hLoad : shape.last = .load slot := tracks.last_of_changesLoaded hChanges
    exact ofStep?_eq_none (fun hOne => hLast ⟨hLoad, .inl hOne⟩) fun hMinus => hLast ⟨hLoad, .inr hMinus⟩
  let target : Operand := locals.operand id block.supply.nextId
  have hTarget : target.kind = .localVariable id false := rfl
  obtain ⟨operand, supply, hChange, increment, hCells, hNextId⟩ :=
    yields_changeLocal setting found hTypes hTarget (hLocals.type_of_lt hFound.lt) hAfter
  refine ⟨_, .single rfl (yields_iinc setting block amount hVariable hChange), ?_⟩
  have hNextId : block.supply.nextId ≤ supply.nextId := Nat.le_of_succ_le hNextId
  refine tracks.advance (by decide) hLocals hAgrees hCells (.cons hNextId tracks.plain.operands increment.known) ?_ ?_
  · exact ⟨rfl, rfl, shape.entries, operand, _, id, amount, rfl, List.reverse_reverse _, increment.statement,
      increment.single, increment.noLocal, increment.references, hFound,
      fun slots hSlots => (hSlots id hFound.lt).trans hFound.slot ▸ increment.computes slots⟩
  · intro slots hSlots reach mirrors
    have hSlot : slots id = slot := (hSlots id hFound.lt).trans hFound.slot
    exact mirrors.increment increment.statement (hSlot ▸ increment.computes slots)

theorem increment (tracks : Tracks shape block run) (hNext : shape.step (.increment slot amount) = some next) :
    ∃ after, Runs setting [.iinc slot amount] block after ∧
      Tracks next after (following run (.increment slot amount)) := by
  simp only [Shape.step] at hNext
  split at hNext
  · next hLast =>
      obtain rfl := Option.some.inj hNext
      exact tracks.incrementAfter hLast.1 hLast.2
  · next hLast =>
      obtain rfl := Option.some.inj hNext
      exact tracks.incrementLocal hLast

end Tracks

end Decompiler.Arithmetic
