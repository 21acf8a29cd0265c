import Decompiler.Execution.Idiom
import Decompiler.Proofs.Arithmetic.Machine

/-!
What the evaluation of an operand reads and writes. The bounds justify the few changes of order that symbolic
execution makes: a value without effects may be evaluated again or left out, and two values that do not interfere may
change places.
-/

namespace Decompiler.Arithmetic

/-- The value and the locals that an evaluation gives. -/
abbrev Evaluation := Locals → Int32 × Locals

namespace Evaluation

/-- A constant, whatever the locals are. -/
def constant (value : Int32) : Evaluation := fun locals => (value, locals)

/-- The value of a local. -/
def load (slot : UInt16) : Evaluation := fun locals => (locals slot, locals)

/-- The left value, then the right one, and the operation on both. -/
def operate (operation : Operation) (left right : Evaluation) : Evaluation := fun locals =>
  (operation.apply (left locals).1 (right (left locals).2).1, (right (left locals).2).2)

/-- The negated value. -/
def negate (evaluation : Evaluation) : Evaluation := fun locals => (-(evaluation locals).1, (evaluation locals).2)

/-- The value is stored into a slot. -/
def store (slot : UInt16) (evaluation : Evaluation) : Evaluation := fun locals =>
  ((evaluation locals).1, Function.update (evaluation locals).2 slot (evaluation locals).1)

theorem store_locals (slot : UInt16) (evaluation : Evaluation) (locals : Locals) :
    (store slot evaluation locals).2 = Function.update (evaluation locals).2 slot (evaluation locals).1 := rfl

/-- The slot is changed by an amount; the value is the one before or the one after. -/
def increment (slot : UInt16) (amount : Int32) (after : Bool) : Evaluation := fun locals =>
  (if after then locals slot else locals slot + amount, Function.update locals slot (locals slot + amount))

end Evaluation

/-- The evaluation writes no other slots than `writes`, and what it gives depends on the slots `reads` only. -/
structure Within (reads writes : List UInt16) (evaluation : Evaluation) : Prop where
  frame : ∀ locals, ∀ slot ∉ writes, (evaluation locals).2 slot = locals slot
  value : ∀ first second : Locals, (∀ slot ∈ reads, first slot = second slot) →
    (evaluation first).1 = (evaluation second).1
  written : ∀ first second : Locals, (∀ slot ∈ reads, first slot = second slot) →
    ∀ slot ∈ writes, (evaluation first).2 slot = (evaluation second).2 slot

namespace Within

variable {reads writes reads' writes' : List UInt16} {f g : Evaluation}

/-- A constant reads and writes nothing. -/
theorem constant (value : Int32) : Within [] [] (.constant value) where
  frame _ _ _ := rfl
  value _ _ _ := rfl
  written _ _ _ _ hSlot := absurd hSlot List.not_mem_nil

/-- A load reads its slot. -/
theorem load (slot : UInt16) : Within [slot] [] (.load slot) where
  frame _ _ _ := rfl
  value _ _ hSame := hSame slot List.mem_cons_self
  written _ _ _ _ hSlot := absurd hSlot List.not_mem_nil

theorem negate (within : Within reads writes f) : Within reads writes (.negate f) where
  frame := within.frame
  value first second hSame := congrArg (- ·) (within.value first second hSame)
  written := within.written

/-- A store writes its slot beside all that its value writes. -/
theorem store (within : Within reads writes f) (slot : UInt16) : Within reads (slot :: writes) (.store slot f) where
  frame locals other hOther := by
    rw [List.mem_cons, not_or] at hOther
    rw [Evaluation.store_locals, Function.update_of_ne hOther.1]
    exact within.frame locals other hOther.2
  value := within.value
  written first second hSame other hOther := by
    have hValue := within.value first second hSame
    by_cases hSlot : other = slot
    · subst hSlot
      simp [Evaluation.store, hValue]
    · rw [Evaluation.store_locals, Evaluation.store_locals, Function.update_of_ne hSlot, Function.update_of_ne hSlot]
      exact within.written first second hSame other ((List.mem_cons.mp hOther).resolve_left hSlot)

theorem increment (slot : UInt16) (amount : Int32) (after : Bool) :
    Within [slot] [slot] (.increment slot amount after) where
  frame locals other hOther := Function.update_of_ne (fun hSame => hOther (List.mem_singleton.mpr hSame)) _ _
  value first second hSame := by
    have hSlot := hSame slot List.mem_cons_self
    simp [Evaluation.increment, hSlot]
  written first second hSame other hOther := by
    have hSlot := hSame slot List.mem_cons_self
    rw [List.mem_singleton.mp hOther]
    simp [Evaluation.increment, hSlot]

/-- Locals that agree on the slots of two evaluations still agree on those of the second one after the first. -/
theorem agree_after (within : Within reads writes f) {first second : Locals}
    (hSame : ∀ slot ∈ reads ++ reads', first slot = second slot) :
    ∀ slot ∈ reads', (f first).2 slot = (f second).2 slot := by
  intro slot hSlot
  by_cases hWritten : slot ∈ writes
  · exact within.written first second (fun other hOther => hSame other (List.mem_append_left _ hOther)) slot hWritten
  · rw [within.frame first slot hWritten, within.frame second slot hWritten]
    exact hSame slot (List.mem_append_right _ hSlot)

/-- An operation reads and writes what its sides do. -/
theorem operate (operation : Operation) (left : Within reads writes f) (right : Within reads' writes' g) :
    Within (reads ++ reads') (writes ++ writes') (.operate operation f g) where
  frame locals slot hSlot := by
    rw [List.mem_append, not_or] at hSlot
    exact (right.frame _ slot hSlot.2).trans (left.frame locals slot hSlot.1)
  value first second hSame := by
    have hLeft := left.value first second fun slot hSlot => hSame slot (List.mem_append_left _ hSlot)
    have hRight := right.value _ _ (left.agree_after hSame)
    simp only [Evaluation.operate, hLeft, hRight]
  written first second hSame slot hSlot := by
    by_cases hRight : slot ∈ writes'
    · exact right.written _ _ (left.agree_after hSame) slot hRight
    · have hLeft : slot ∈ writes := (List.mem_append.mp hSlot).resolve_right hRight
      have hWritten := left.written first second
        (fun other hOther => hSame other (List.mem_append_left _ hOther)) slot hLeft
      exact (right.frame _ slot hRight).trans (hWritten.trans (right.frame _ slot hRight).symm)

end Within

/-- An evaluation that writes nothing of what it reads may be repeated. -/
def repeatable (reads writes : List UInt16) : Bool := writes.all fun slot => !reads.contains slot

/-- A repeated evaluation gives the same again. -/
theorem Within.again {reads writes : List UInt16} {f : Evaluation} (within : Within reads writes f)
    (hRepeatable : repeatable reads writes = true) (locals : Locals) : f (f locals).2 = f locals := by
  simp only [repeatable, List.all_eq_true, Bool.not_eq_true', List.contains_eq_mem, decide_eq_false_iff_not]
    at hRepeatable
  have hKept : ∀ slot ∈ reads, (f locals).2 slot = locals slot := by
    intro slot hSlot
    exact within.frame locals slot fun hWritten => hRepeatable slot hWritten hSlot
  have hLocals : (f (f locals).2).2 = (f locals).2 := by
    funext slot
    by_cases hWritten : slot ∈ writes
    · exact within.written _ _ hKept slot hWritten
    · exact within.frame _ slot hWritten
  exact Prod.ext (within.value _ _ hKept) hLocals

/-- Two evaluations do not interfere: neither writes what the other one reads or writes. -/
def independent (reads writes reads' writes' : List UInt16) : Bool :=
  writes.all (fun slot => !reads'.contains slot && !writes'.contains slot) &&
    writes'.all fun slot => !reads.contains slot

/-- Evaluations that do not interfere may change places. -/
theorem Within.exchange {reads writes reads' writes' : List UInt16} {f g : Evaluation} (first : Within reads writes f)
    (second : Within reads' writes' g) (hApart : independent reads writes reads' writes' = true) (locals : Locals) :
    (f (g locals).2).1 = (f locals).1 ∧ (g (f locals).2).1 = (g locals).1 ∧
      (g (f locals).2).2 = (f (g locals).2).2 := by
  simp only [independent, Bool.and_eq_true, List.all_eq_true, Bool.not_eq_true', List.contains_eq_mem,
    decide_eq_false_iff_not] at hApart
  obtain ⟨hFirst, hSecond⟩ := hApart
  have hKeptFirst : ∀ slot ∈ reads, (g locals).2 slot = locals slot := by
    intro slot hSlot
    exact second.frame locals slot fun hWritten => hSecond slot hWritten hSlot
  have hKeptSecond : ∀ slot ∈ reads', (f locals).2 slot = locals slot := by
    intro slot hSlot
    exact first.frame locals slot fun hWritten => (hFirst slot hWritten).1 hSlot
  refine ⟨first.value _ _ hKeptFirst, second.value _ _ hKeptSecond, ?_⟩
  funext slot
  by_cases hWritten : slot ∈ writes
  · have hOther : slot ∉ writes' := (hFirst slot hWritten).2
    rw [second.frame _ slot hOther, first.written _ _ hKeptFirst slot hWritten]
  · rw [first.frame _ slot hWritten]
    by_cases hOther : slot ∈ writes'
    · exact second.written _ _ hKeptSecond slot hOther
    · rw [second.frame _ slot hOther, second.frame _ slot hOther, first.frame _ slot hWritten]

/-! ### Operands -/

/-- The evaluation of the operand succeeds from all locals and is the given one. -/
def Computes (slots : VariableId → UInt16) (operand : Operand) (evaluation : Evaluation) : Prop :=
  ∀ locals, evaluate slots operand locals = some (evaluation locals)

namespace Computes

variable {slots : VariableId → UInt16} {operand target value left right : Operand} {f g : Evaluation}
  {id : VariableId} {declares : Bool}

/-- An operand computes one evaluation only. -/
theorem unique (first : Computes slots operand f) (second : Computes slots operand g) : f = g := by
  funext locals
  exact Option.some.inj ((first locals).symm.trans (second locals))

/-- The flags, the identity and the type of an operand do not matter. -/
theorem congr {other : Operand} (computes : Computes slots operand f) (hKind : other.kind = operand.kind) :
    Computes slots other f := by
  intro locals
  rw [evaluate_eq, hKind, ← evaluate_eq]
  exact computes locals

theorem number {constant : Int32} (hKind : operand.kind = .number (.int constant)) :
    Computes slots operand (.constant constant) := by
  intro locals
  rw [evaluate_eq, hKind, evaluateKind_number]
  rfl

theorem localVariable (hKind : operand.kind = .localVariable id declares) :
    Computes slots operand (.load (slots id)) := by
  intro locals
  rw [evaluate_eq, hKind, evaluateKind_localVariable]
  rfl

/-- An operator computes with what its sides compute. -/
theorem binary {operator : BinaryOperator} {operation : Operation} (hKind : operand.kind = .binary left operator right)
    (hOperator : Operation.ofBinary? operator = some operation) (hLeft : Computes slots left f)
    (hRight : Computes slots right g) : Computes slots operand (.operate operation f g) := by
  intro locals
  rw [evaluate_eq, hKind, evaluateKind_binary, hLeft, hOperator]
  simp only [Option.bind_eq_bind, Option.bind_some, hRight (f locals).2]
  rfl

/-- What an operator computes comes from what its sides compute. -/
theorem ofBinary {operator : BinaryOperator} (computes : Computes slots operand f)
    (hKind : operand.kind = .binary left operator right) (hLeft : Computes slots left g) (locals : Locals) :
    ∃ operation y after, Operation.ofBinary? operator = some operation ∧
      evaluate slots right (g locals).2 = some (y, after) ∧ f locals = (operation.apply (g locals).1 y, after) := by
  have hComputes := computes locals
  rw [evaluate_eq, hKind, evaluateKind_binary, hLeft] at hComputes
  simp only [Option.bind_eq_bind, Option.bind_some] at hComputes
  obtain ⟨⟨y, after⟩, hRight, hRest⟩ := Option.bind_eq_some_iff.mp hComputes
  obtain ⟨operation, hOperation, hResult⟩ := Option.bind_eq_some_iff.mp hRest
  exact ⟨operation, y, after, hOperation, hRight, (Option.some.inj hResult).symm⟩

theorem negate (hKind : operand.kind = .unary .negate value) (hValue : Computes slots value f) :
    Computes slots operand (.negate f) := by
  intro locals
  rw [evaluate_eq, hKind, evaluateKind_negate, hValue]
  rfl

/-- An assignment computes its value and stores it. -/
theorem assign (hKind : operand.kind = .assign target .assign value)
    (hTarget : target.kind = .localVariable id declares)
    (hValue : Computes slots value f) : Computes slots operand (.store (slots id) f) := by
  intro locals
  rw [evaluate_eq, hKind, evaluateKind_assign _ _ _ hTarget, hValue]
  rfl

/-- An increment by one. -/
theorem step {operator : UnaryOperator} {amount : Int32} {after : Bool} (hKind : operand.kind = .unary operator target)
    (hTarget : target.kind = .localVariable id declares)
    (hOperator : UnaryOperator.ofStep? amount.toInt after = some operator) :
    Computes slots operand (.increment (slots id) amount after) := by
  intro locals
  obtain ⟨_, _, _, _, _, _⟩ := target
  obtain rfl := hTarget
  have hUp (hAmount : amount.toInt = 1) : amount = 1 := Int32.toInt_inj.mp hAmount
  have hDown (hAmount : amount.toInt = -1) : amount = -1 := Int32.toInt_inj.mp hAmount
  rw [evaluate_eq, hKind]
  unfold UnaryOperator.ofStep? at hOperator
  split at hOperator
  · next hAmount =>
      cases hOperator
      rw [hUp hAmount]
      rfl
  · next hAmount =>
      cases hOperator
      rw [hUp hAmount]
      rfl
  · next hAmount =>
      cases hOperator
      rw [hDown hAmount, Evaluation.increment, ← Int32.sub_eq_add_neg]
      rfl
  · next hAmount =>
      cases hOperator
      rw [hDown hAmount, Evaluation.increment, ← Int32.sub_eq_add_neg]
      rfl
  · cases hOperator

/-- An increment by any amount, written as a compound assignment. -/
theorem adjust {operator : AssignOperator} {amount constant : Int32}
    (hKind : operand.kind = .assign target operator value)
    (hTarget : target.kind = .localVariable id declares) (hValue : value.kind = .number (.int constant))
    (hAmount : operator = .add ∧ constant = amount ∨ operator = .subtract ∧ constant = -amount) :
    Computes slots operand (.increment (slots id) amount false) := by
  intro locals
  have hRead : evaluate slots value locals = some (constant, locals) := number hValue locals
  rw [evaluate_eq, hKind]
  rcases hAmount with ⟨rfl, rfl⟩ | ⟨rfl, rfl⟩
  · rw [evaluateKind_compound _ _ _ hTarget (show Operation.ofAssign? .add = some .add from rfl), hRead]
    rfl
  · have hMinus : locals (slots id) - -amount = locals (slots id) + amount := by
      rw [Int32.sub_eq_add_neg, Int32.neg_neg]
    rw [evaluateKind_compound _ _ _ hTarget (show Operation.ofAssign? .subtract = some .subtract from rfl), hRead]
    simp [Evaluation.increment, Operation.apply, hMinus]

/-- A compound assignment of what a binary operand with the local on its left computes. -/
theorem compound {operator : BinaryOperator} {joined : AssignOperator}
    (hKind : operand.kind = .assign target joined right) (hTarget : target.kind = .localVariable id declares)
    (hValue : value.kind = .binary left operator right)
    {other : Bool} (hLeft : left.kind = .localVariable id other)
    (hOperator : AssignOperator.ofBinary? operator = some joined) (computes : Computes slots value f) :
    Computes slots operand (.store (slots id) f) := by
  intro locals
  obtain ⟨operation, y, after, hOperation, hRight, hValue⟩ := computes.ofBinary hValue (localVariable hLeft) locals
  have hRead : evaluate slots right locals = some (y, after) := hRight
  have hBefore : f locals = (operation.apply (locals (slots id)) y, after) := hValue
  have hJoined : Operation.ofAssign? joined = some operation := by
    cases operator with
    | add | subtract | multiply =>
        cases hOperator
        exact hOperation
    | _ => cases hOperation
  rw [evaluate_eq, hKind, evaluateKind_compound _ _ _ hTarget hJoined, hRead, Evaluation.store, hBefore]
  rfl

/-- A step by one of a local, written as a sum or a difference. -/
theorem stepped {operator : BinaryOperator} {upwards : Bool} (computes : Computes slots value f)
    (hValue : value.kind = .binary left operator right) (hLeft : left.kind = .localVariable id declares)
    (hRight : right.isConstant 1 = true) (hOperator : operator = if upwards then .add else .subtract)
    (locals : Locals) : f locals = (locals (slots id) + (if upwards then 1 else -1), locals) := by
  obtain ⟨operation, y, after, hOperation, hRead, hBefore⟩ := computes.ofBinary hValue (localVariable hLeft) locals
  have hOne : y = 1 ∧ after = locals := by
    unfold Operand.isConstant at hRight
    rw [evaluate_eq] at hRead
    split at hRight
    · next number hNumber =>
        rw [hNumber] at hRead
        cases number with
        | int constant =>
            have hConstant : constant.toInt = 1 := by simpa [Number.integer?] using hRight
            cases hRead
            exact ⟨Int32.toInt_inj.mp hConstant, rfl⟩
        | _ => cases hRead
    · cases hRight
  rw [hBefore, hOne.1, hOne.2]
  cases upwards with
  | true =>
      rw [hOperator] at hOperation
      cases hOperation
      rfl
  | false =>
      rw [hOperator] at hOperation
      cases hOperation
      exact congrArg (·, locals) (Int32.sub_eq_add_neg ..)

end Computes

end Decompiler.Arithmetic
