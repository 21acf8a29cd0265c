import Decompiler.Proofs.Arithmetic.Shape

/-!
The meaning of a symbolic stack whose shape is known. `Mirrors` says which states of the stack machine the operands
stand for; each instruction that is in order leads from mirrored states to mirrored states.
-/

namespace Decompiler.Arithmetic

/-! ### The meaning of a symbolic stack -/

namespace Machine

/-- Evaluates and leaves the value on the stack. -/
def push (machine : Machine) (evaluation : Evaluation) : Machine :=
  { locals := (evaluation machine.locals).2, stack := (evaluation machine.locals).1 :: machine.stack }

/-- Evaluates once and leaves the value twice. -/
def pushTwice (machine : Machine) (evaluation : Evaluation) : Machine :=
  { locals := (evaluation machine.locals).2
    stack := (evaluation machine.locals).1 :: (evaluation machine.locals).1 :: machine.stack }

/-- Evaluates for the effect. -/
def perform (machine : Machine) (evaluation : Evaluation) : Machine :=
  { machine with locals := (evaluation machine.locals).2 }

end Machine

/-- The operand has the effect of the evaluation. -/
def Performs (slots : VariableId → UInt16) (operand : Operand) (f : Evaluation) : Prop :=
  ∃ g, Computes slots operand g ∧ ∀ locals, (g locals).2 = (f locals).2

theorem Computes.performs {slots : VariableId → UInt16} {operand : Operand} {f : Evaluation}
    (computes : Computes slots operand f) : Performs slots operand f := ⟨f, computes, fun _ => rfl⟩

/-- The operands, the top of the stack first, have the shape of the entries, and evaluating all of them from the bottom
gives the state of the stack machine. -/
inductive Mirrors (slots : VariableId → UInt16) : List Entry → List Operand → (Locals → Machine) → Prop
  | empty : Mirrors slots [] [] fun locals => { locals, stack := [] }
  | value {entries : List Entry} {operands : List Operand} {reach : Locals → Machine} {operand : Operand}
      {f : Evaluation} {reads writes : List UInt16} (below : Mirrors slots entries operands reach)
      (hValue : operand.statement = false) (hSingle : operand.duplicated = false) (hComputes : Computes slots operand f)
      (hWithin : Within reads writes f) :
      Mirrors slots (.value reads writes :: entries) (operand :: operands) fun locals => (reach locals).push f
  | double {entries : List Entry} {operands : List Operand} {reach : Locals → Machine} {operand : Operand}
      {f : Evaluation} {reads writes : List UInt16} (below : Mirrors slots entries operands reach)
      (hValue : operand.statement = false) (hDouble : operand.duplicated = true) (hComputes : Computes slots operand f)
      (hWithin : Within reads writes f) :
      Mirrors slots (.double reads writes :: entries) (operand :: operands) fun locals => (reach locals).pushTwice f
  | finished {entries : List Entry} {operands : List Operand} {reach : Locals → Machine} {operand : Operand}
      {f : Evaluation} {reads writes : List UInt16} (below : Mirrors slots entries operands reach)
      (hStatement : operand.statement = true) (hPerforms : Performs slots operand f) (hWithin : Within reads writes f) :
      Mirrors slots (.finished reads writes :: entries) (operand :: operands) fun locals => (reach locals).perform f
  | hidden {entries : List Entry} {operands : List Operand} {reach : Locals → Machine} (copy : Locals → Int32)
      (below : Mirrors slots entries operands reach) :
      Mirrors slots (.hidden :: entries) operands fun locals =>
        { reach locals with stack := copy locals :: (reach locals).stack }

/-- An operand as an instruction gets it, without the mark of its copy. -/
def single (operand : Operand) : Operand := { operand with duplicated := false }

/-- What is left of the stack when its top is popped. -/
def remaining (top : Operand) (rest : List Operand) : List Operand :=
  if top.duplicated then single top :: rest else rest

namespace Mirrors

variable {slots : VariableId → UInt16} {entries entries' : List Entry} {operands rest : List Operand} {top : Operand}
  {reach : Locals → Machine} {reads writes : List UInt16}

/-- A value that can be taken is on top of the symbolic stack. -/
theorem exists_top (mirrors : Mirrors slots entries operands reach)
    (hTake : Entry.take? entries = some (reads, writes, entries')) :
    ∃ top rest, operands = top :: rest ∧ top.statement = false := by
  cases mirrors with
  | value _ hValue => exact ⟨_, _, rfl, hValue⟩
  | double _ hValue => exact ⟨_, _, rfl, hValue⟩
  | _ => cases hTake

/-- A value that is there once is an operand without a mark. -/
theorem top_of_value (mirrors : Mirrors slots (.value reads writes :: entries) operands reach) :
    ∃ top rest, operands = top :: rest ∧ top.duplicated = false := by
  cases mirrors with
  | value _ _ hSingle => exact ⟨_, _, rfl, hSingle⟩

/-- A value that is there twice is an operand with a mark. -/
theorem top_of_double (mirrors : Mirrors slots (.double reads writes :: entries) operands reach) :
    ∃ top rest, operands = top :: rest ∧ top.duplicated = true := by
  cases mirrors with
  | double _ _ hDouble => exact ⟨_, _, rfl, hDouble⟩

/-- Two values lie in two operands. -/
theorem exists_pair {reads' writes' : List UInt16}
    (mirrors : Mirrors slots (.value reads' writes' :: .value reads writes :: entries) operands reach) :
    ∃ top below rest, operands = top :: below :: rest := by
  cases mirrors with
  | value below =>
      obtain ⟨operand, rest, rfl, -⟩ := below.exists_top rfl
      exact ⟨_, operand, rest, rfl⟩

/-- No condition computes a value. -/
theorem isCondition_eq_false (mirrors : Mirrors slots entries operands reach) :
    ∀ operand ∈ operands, operand.isCondition = false := by
  have hPlain {operand : Operand} {f : Evaluation} (hComputes : Computes slots operand f) :
      operand.isCondition = false := by
    have hValue := hComputes fun _ => 0
    rw [evaluate_eq] at hValue
    unfold Operand.isCondition Operand.condition?
    split
    · next hKind =>
        rw [hKind] at hValue
        cases hValue
    · rfl
  induction mirrors with
  | empty => exact fun _ hOperand => absurd hOperand List.not_mem_nil
  | value _ _ _ hComputes _ ih | double _ _ _ hComputes _ ih => exact List.forall_mem_cons.mpr ⟨hPlain hComputes, ih⟩
  | finished _ _ hPerforms _ ih =>
      obtain ⟨g, hComputes, -⟩ := hPerforms
      exact List.forall_mem_cons.mpr ⟨hPlain hComputes, ih⟩
  | hidden _ _ ih => exact ih

/-- The topmost value is what the topmost operand computes, and the rest is mirrored by what remains. -/
theorem take (mirrors : Mirrors slots entries (top :: rest) reach)
    (hTake : Entry.take? entries = some (reads, writes, entries')) :
    ∃ f reach', Computes slots (single top) f ∧ Within reads writes f ∧
      Mirrors slots entries' (remaining top rest) reach' ∧ reach = fun locals => (reach' locals).push f := by
  cases mirrors with
  | value below hValue hSingle hComputes hWithin =>
      cases hTake
      rw [remaining, hSingle]
      exact ⟨_, _, hComputes.congr rfl, hWithin, below, rfl⟩
  | @double _ _ reach _ f _ writes below hValue hDouble hComputes hWithin =>
      rw [Entry.take?] at hTake
      split at hTake
      · next hRepeatable =>
          cases hTake
          rw [remaining, hDouble]
          have hAgain : (fun locals => (reach locals).pushTwice f) = fun locals => ((reach locals).push f).push f := by
            funext locals
            simp only [Machine.pushTwice, Machine.push, hWithin.again hRepeatable]
          exact ⟨f, _, hComputes.congr rfl, hWithin, .value below hValue rfl (hComputes.congr rfl) hWithin, hAgain⟩
      · cases hTake
  | _ => cases hTake

end Mirrors

/-! ### What an instruction does to the meaning -/

/-- The instruction leads every state of the machine on, and the operands mirror the states reached. -/
def Leads (slots : VariableId → UInt16) (reach : Locals → Machine) (instruction : Instruction) (entries : List Entry)
    (operands : List Operand) : Prop :=
  ∃ reach', (∀ locals, (reach locals).step instruction = some (reach' locals)) ∧ Mirrors slots entries operands reach'

namespace Mirrors

variable {slots : VariableId → UInt16} {entries entries' : List Entry} {operands rest : List Operand}
  {operand top below : Operand} {reach : Locals → Machine} {reads writes reads' writes' : List UInt16} {slot : UInt16}
  {amount : Int32} {f g : Evaluation} {instruction : Instruction}

theorem constant {number : Int32} (mirrors : Mirrors slots entries operands reach) (hValue : operand.statement = false)
    (hSingle : operand.duplicated = false) (hComputes : Computes slots operand (.constant number)) :
    Leads slots reach (.constant number) (.value [] [] :: entries) (operand :: operands) :=
  ⟨_, fun _ => rfl, .value mirrors hValue hSingle hComputes (.constant number)⟩

theorem load (mirrors : Mirrors slots entries operands reach) (hValue : operand.statement = false)
    (hSingle : operand.duplicated = false) (hComputes : Computes slots operand (.load slot)) :
    Leads slots reach (.load slot) (.value [slot] [] :: entries) (operand :: operands) :=
  ⟨_, fun _ => rfl, .value mirrors hValue hSingle hComputes (.load slot)⟩

/-- The value of an increment that was a statement is what a load gives after it. -/
theorem reuse (mirrors : Mirrors slots (.finished reads writes :: entries) (top :: operands) reach)
    (hTop : Computes slots top (.increment slot amount false)) (hKind : operand.kind = top.kind)
    (hValue : operand.statement = false) (hSingle : operand.duplicated = false) :
    Leads slots reach (.load slot) (.value [slot] [slot] :: entries) (operand :: operands) := by
  cases mirrors with
  | finished below hStatement hPerforms hWithin =>
      obtain ⟨g, hComputes, hEffect⟩ := hPerforms
      obtain rfl := hComputes.unique hTop
      refine ⟨_, fun locals => ?_, .value below hValue hSingle (hTop.congr hKind) (.increment slot amount false)⟩
      unfold Machine.step
      simp [Machine.perform, Machine.push, ← hEffect, Evaluation.increment]

/-- The value makes way for a statement that stores it. -/
theorem store (mirrors : Mirrors slots (.value reads writes :: entries) (top :: rest) reach)
    (hOperand : ∀ f, Computes slots (single top) f → Performs slots operand (.store slot f))
    (hStatement : operand.statement = true) :
    Leads slots reach (.store slot) (.finished reads (slot :: writes) :: entries) (operand :: rest) := by
  cases mirrors with
  | @value _ _ reach _ f _ _ below hValue hSingle hComputes hWithin =>
      have hStored : Performs slots operand (.store slot f) := hOperand f (hComputes.congr rfl)
      exact ⟨_, fun _ => rfl, .finished below hStatement hStored (hWithin.store slot)⟩

/-- A duplicated value that is stored is used as the value of the assignment. -/
theorem storeDouble (mirrors : Mirrors slots (.double reads writes :: entries) (top :: rest) reach)
    (hOperand : ∀ f, Computes slots (single top) f → Computes slots operand (.store slot f))
    (hValue : operand.statement = false) (hSingle : operand.duplicated = false) :
    Leads slots reach (.store slot) (.value reads (slot :: writes) :: entries) (operand :: rest) := by
  cases mirrors with
  | @double _ _ reach _ f _ _ below _ _ hComputes hWithin =>
      have hStored : Computes slots operand (.store slot f) := hOperand f (hComputes.congr rfl)
      exact ⟨_, fun _ => rfl, .value below hValue hSingle hStored (hWithin.store slot)⟩

/-- The increment of a local that was just loaded changes it after the load. -/
theorem incrementAfter (mirrors : Mirrors slots (.value reads writes :: entries) (top :: rest) reach)
    (hTop : Computes slots top (.load slot)) (hOperand : Computes slots operand (.increment slot amount true))
    (hValue : operand.statement = false) (hSingle : operand.duplicated = false) :
    Leads slots reach (.increment slot amount) (.value [slot] [slot] :: entries) (operand :: rest) := by
  cases mirrors with
  | value below _ _ hComputes _ =>
      obtain rfl := hComputes.unique hTop
      exact ⟨_, fun _ => rfl, .value below hValue hSingle hOperand (.increment slot amount true)⟩

theorem increment (mirrors : Mirrors slots entries operands reach) (hStatement : operand.statement = true)
    (hOperand : Computes slots operand (.increment slot amount false)) :
    Leads slots reach (.increment slot amount) (.finished [slot] [slot] :: entries) (operand :: operands) :=
  ⟨_, fun _ => rfl, .finished mirrors hStatement hOperand.performs (.increment slot amount false)⟩

/-- Two values make way for the operand that computes with them. -/
theorem operate {operation : Operation} (mirrors : Mirrors slots entries (top :: rest) reach)
    {middle : List Entry} (hTop : Entry.take? entries = some (reads', writes', middle))
    (hRemaining : remaining top rest = below :: operands) (hBelow : Entry.take? middle = some (reads, writes, entries'))
    (hOperand : ∀ f g, Computes slots (single below) f → Computes slots (single top) g →
      Computes slots operand (.operate operation f g))
    (hValue : operand.statement = false) (hSingle : operand.duplicated = false) :
    Leads slots reach (.operate operation) (.value (reads ++ reads') (writes ++ writes') :: entries')
      (operand :: remaining below operands) := by
  obtain ⟨g, middleReach, hRight, hRightWithin, middleMirrors, rfl⟩ := mirrors.take hTop
  rw [hRemaining] at middleMirrors
  obtain ⟨f, lowerReach, hLeft, hLeftWithin, lowerMirrors, rfl⟩ := middleMirrors.take hBelow
  exact ⟨_, fun _ => rfl, .value lowerMirrors hValue hSingle (hOperand f g hLeft hRight)
    (hLeftWithin.operate operation hRightWithin)⟩

theorem negate (mirrors : Mirrors slots entries (top :: rest) reach)
    (hTake : Entry.take? entries = some (reads, writes, entries'))
    (hOperand : ∀ f, Computes slots (single top) f → Computes slots operand (.negate f))
    (hValue : operand.statement = false) (hSingle : operand.duplicated = false) :
    Leads slots reach .negate (.value reads writes :: entries') (operand :: remaining top rest) := by
  obtain ⟨f, lowerReach, hTop, hWithin, lowerMirrors, rfl⟩ := mirrors.take hTake
  exact ⟨_, fun _ => rfl, .value lowerMirrors hValue hSingle (hOperand f hTop) hWithin.negate⟩

/-- A mark on the operand stands for the second copy. -/
theorem duplicate (mirrors : Mirrors slots (.value reads writes :: entries) (top :: rest) reach) :
    Leads slots reach .duplicate (.double reads writes :: entries) ({ top with duplicated := true } :: rest) := by
  cases mirrors with
  | value below hValue hSingle hComputes hWithin =>
      exact ⟨_, fun _ => rfl, .double below hValue rfl (hComputes.congr rfl) hWithin⟩

/-- Another copy of a value that is there twice is put below the two. -/
theorem hideCopy (mirrors : Mirrors slots (.double reads writes :: entries) (top :: rest) reach)
    (hStep : ∀ locals copy stack, Machine.step { locals, stack := copy :: copy :: stack } instruction =
      some { locals, stack := copy :: copy :: copy :: stack }) :
    Leads slots reach instruction (.double reads writes :: .hidden :: entries)
      ({ top with duplicated := true } :: rest) := by
  cases mirrors with
  | @double _ _ reach _ f _ _ below hValue _ hComputes hWithin =>
      let copy (locals : Locals) : Int32 := (f (reach locals).locals).1
      refine ⟨_, fun locals => ?_, .double (.hidden copy below) hValue rfl (hComputes.congr rfl) hWithin⟩
      exact hStep _ (copy locals) (reach locals).stack

theorem duplicateDouble (mirrors : Mirrors slots (.double reads writes :: entries) (top :: rest) reach) :
    Leads slots reach .duplicate (.double reads writes :: .hidden :: entries)
      ({ top with duplicated := true } :: rest) :=
  mirrors.hideCopy fun _ _ _ => rfl

theorem duplicateBelowDouble (mirrors : Mirrors slots (.double reads writes :: entries) operands reach) :
    Leads slots reach .duplicateBelow (.double reads writes :: .hidden :: entries) operands := by
  obtain ⟨top, rest, rfl, hDouble⟩ := mirrors.top_of_double
  have hSame : ({ top with duplicated := true } : Operand) = top := by
    cases top
    cases hDouble
    rfl
  have hHidden : Leads slots reach .duplicateBelow (.double reads writes :: .hidden :: entries)
      ({ top with duplicated := true } :: rest) :=
    mirrors.hideCopy fun _ _ _ => rfl
  rwa [hSame] at hHidden

/-- The copy below two values has no operand, so it stays hidden. -/
theorem duplicateBelow
    (mirrors : Mirrors slots (.value reads' writes' :: .value reads writes :: entries) operands reach) :
    Leads slots reach .duplicateBelow (.value reads' writes' :: .value reads writes :: .hidden :: entries)
      operands := by
  cases mirrors with
  | @value _ _ _ _ g _ _ below hValue hSingle hComputes hWithin =>
      cases below with
      | @value _ _ reach _ f _ _ lowest hBelow hBelowSingle hBelowComputes hBelowWithin =>
          let copy (locals : Locals) : Int32 := (g (f (reach locals).locals).2).1
          exact ⟨_, fun _ => rfl, .value (.value (.hidden copy lowest) hBelow hBelowSingle hBelowComputes hBelowWithin)
            hValue hSingle hComputes hWithin⟩

/-- Two values that do not interfere change places, and their effects with them. -/
theorem swap
    (mirrors : Mirrors slots (.value reads' writes' :: .value reads writes :: entries) (top :: below :: rest) reach)
    (hApart : independent reads writes reads' writes' = true) :
    Leads slots reach .swap (.value reads writes :: .value reads' writes' :: entries) (below :: top :: rest) := by
  cases mirrors with
  | @value _ _ _ _ g _ _ lower hValue hSingle hComputes hWithin =>
      cases lower with
      | @value _ _ reach _ f _ _ lowest hBelow hBelowSingle hBelowComputes hBelowWithin =>
          refine ⟨_, fun locals => ?_, .value (.value lowest hValue hSingle hComputes hWithin) hBelow hBelowSingle
            hBelowComputes hBelowWithin⟩
          obtain ⟨hFirst, hSecond, hLocals⟩ := hBelowWithin.exchange hWithin hApart (reach locals).locals
          unfold Machine.step
          simp [Machine.push, hFirst, hSecond, hLocals]

/-- A value that is dropped stays as a statement, for its effects. -/
theorem drop (mirrors : Mirrors slots entries (top :: rest) reach)
    (hTake : Entry.take? entries = some (reads, writes, entries')) (hKind : operand.kind = top.kind)
    (hStatement : operand.statement = true) :
    Leads slots reach .drop (.finished reads writes :: entries') (operand :: remaining top rest) := by
  obtain ⟨f, lowerReach, hTop, hWithin, lowerMirrors, rfl⟩ := mirrors.take hTake
  exact ⟨_, fun _ => rfl, .finished lowerMirrors hStatement (hTop.congr hKind).performs hWithin⟩

end Mirrors

/-! ### What the statements return -/

/-- An operand that computes something is a value or the statement of one. -/
theorem returnedBy?_cons_of_computes {slots : VariableId → UInt16} {operand : Operand} {f : Evaluation}
    (hStatement : operand.statement = true) (hComputes : Computes slots operand f) (rest : List Operand)
    (locals : Locals) : returnedBy? slots (operand :: rest) locals = returnedBy? slots rest (f locals).2 := by
  have hEvaluate : evaluateKind slots operand.kind locals = some (f locals) :=
    (evaluate_eq slots operand locals).symm.trans (hComputes locals)
  rw [returnedBy?, hStatement]
  simp only [Bool.not_true, Bool.false_eq_true, ↓reduceIte]
  split
  · next hKind => rw [hKind] at hEvaluate; cases hEvaluate
  · next hKind => rw [hKind] at hEvaluate; cases hEvaluate
  · rw [hComputes locals]
    rfl

/-- The statements of a stack leave the needed slots as the stack machine does, if nothing that these depend on is lost
with the values that are never evaluated. -/
theorem Mirrors.returnedBy? {slots : VariableId → UInt16} {entries : List Entry} {operands : List Operand}
    {reach : Locals → Machine} {needed : List UInt16} (mirrors : Mirrors slots entries operands reach)
    (hKeeps : Entry.keeps needed entries = true) (locals : Locals) :
    ∃ after : Locals, (∀ slot ∈ needed, after slot = (reach locals).locals slot) ∧ ∀ tail,
      Arithmetic.returnedBy? slots (operands.reverse ++ tail) locals = Arithmetic.returnedBy? slots tail after := by
  induction mirrors generalizing needed with
  | empty => exact ⟨locals, fun _ _ => rfl, fun _ => rfl⟩
  | value below hValue _ _ hWithin ih | double below hValue _ _ hWithin ih =>
      simp only [Entry.keeps, Bool.and_eq_true, List.all_eq_true, Bool.not_eq_true', List.contains_eq_mem,
        decide_eq_false_iff_not] at hKeeps
      obtain ⟨after, hAfter, hReturned⟩ := ih hKeeps.2
      refine ⟨after, fun slot hSlot => ?_, fun tail => ?_⟩
      · exact (hAfter slot hSlot).trans (hWithin.frame _ slot (hKeeps.1 slot hSlot)).symm
      · rw [List.reverse_cons, List.append_assoc, hReturned, List.singleton_append, Arithmetic.returnedBy?, hValue]
        rfl
  | @finished _ _ reach _ f reads writes below hStatement hPerforms hWithin ih =>
      obtain ⟨g, hComputes, hEffect⟩ := hPerforms
      obtain ⟨after, hAfter, hReturned⟩ := ih hKeeps
      refine ⟨(f after).2, fun slot hSlot => ?_, fun tail => ?_⟩
      · have hReads : ∀ other ∈ reads, after other = (reach locals).locals other := fun other hOther =>
          hAfter other (List.mem_append_left _ hOther)
        by_cases hWritten : slot ∈ writes
        · exact hWithin.written _ _ hReads slot hWritten
        · have hBefore : after slot = (reach locals).locals slot :=
            hAfter slot (List.mem_append_right _ (List.mem_filter.mpr ⟨hSlot, by simpa using hWritten⟩))
          exact (hWithin.frame _ slot hWritten).trans (hBefore.trans (hWithin.frame _ slot hWritten).symm)
      · rw [List.reverse_cons, List.append_assoc, hReturned, List.singleton_append,
          returnedBy?_cons_of_computes hStatement hComputes, hEffect]
  | hidden _ _ ih => exact ih hKeeps

end Decompiler.Arithmetic
