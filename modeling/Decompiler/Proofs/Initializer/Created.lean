import Decompiler.Code.Expression
import Decompiler.Proofs.Arithmetic.Step
import Decompiler.Proofs.Execution.Assignment
import Decompiler.Proofs.Execution.Straight
import Decompiler.Proofs.Initializer.Machine
import Decompiler.Proofs.Types.Spread

/-!
What becomes of the stores into a new array. Those that fill the array from its first element on become its initializer;
any other one becomes a statement, which is what the instructions after it take for the array.
-/

namespace Decompiler

/-- The int that code writes as a number. -/
def Code.int? : Code → Option Int32
  | .number (.int value) => some value
  | _ => none

/-- The elements of the int array that code creates. Where elements are written, they are all that there are. -/
def Code.created? : Code → Option (List Int32)
  | .newArray .int _ (some elements) => elements.mapM Code.int?
  | .newArray .int [size] none => size.int?.map fun count => List.replicate count.toInt.toNat 0
  | _ => none

/-- The elements of the array that a body without branches creates for its result. -/
def MethodBody.created? (body : MethodBody) : Option (List Int32) :=
  match body.graph.operands.getLast?.map Operand.kind with
  | some (.returns (some value)) =>
    let scope : Code.Scope := { types := body.graph.supply.types, locals := body.locals, switchValue := default }
    (Code.ofOperand scope 0 value).created?
  | _ => none

namespace Initializer

open Execution
open Arithmetic (Instruction)

variable {setting : Setting} {block : Block} {rest : List Operand} {top index value : Operand}

/-! ### Constants -/

/-- The operand is an int constant, and known as one. -/
structure IsConstant (types : TypeCells) (operand : Operand) (value : Int32) : Prop where
  kind : operand.kind = .number (.int value)
  type : ∃ id, operand.type = .cell id ∧ id < types.cells.size ∧ types.typeOf (.cell id) = .int
  single : operand.duplicated = false
  plain : operand.enclosed = false

theorem IsConstant.add {types : TypeCells} {operand : Operand} {value : Int32}
    (isConstant : IsConstant types operand value) : IsConstant (types.add .int false).2 operand value := by
  obtain ⟨id, hType, hId, hInt⟩ := isConstant.type
  refine { isConstant with type := ⟨id, hType, ?_, ?_⟩ }
  · exact Nat.lt_of_lt_of_eq (Nat.lt_succ_of_lt hId) (Array.size_push _).symm
  · rw [TypeCells.typeOf, TypeCells.cell?_add_of_lt hId]
    exact hInt

theorem isConstant_int (value : Int32) (supply : Supply) :
    IsConstant ((Operand.int value).run supply).2.types ((Operand.int value).run supply).1 value := by
  refine ⟨rfl, ⟨_, rfl, ?_, ?_⟩, rfl, rfl⟩
  · exact Nat.lt_of_lt_of_eq (Nat.lt_succ_self _) (Array.size_push _).symm
  · change ((supply.types.add .int false).2.cell? supply.types.cells.size).elim _ _ = _
    simp [TypeCells.cell?, TypeCells.add]

theorem IsConstant.code {scope : Code.Scope} {operand : Operand} {value : Int32}
    (isConstant : IsConstant scope.types operand value) : Code.ofOperand scope 0 operand = .number (.int value) := by
  obtain ⟨id, hType, -, hInt⟩ := isConstant.type
  obtain ⟨_, _, _, _, _, _⟩ := operand
  obtain rfl := hType
  obtain rfl := isConstant.kind
  obtain rfl := isConstant.plain
  simp [Code.ofOperand, Code.ofKind, hInt, Code.intConstant]

/-- What is known as a constant stays known as one. -/
def Keeps (before after : TypeCells) : Prop :=
  ∀ operand number, IsConstant before operand number → IsConstant after operand number

/-- Executing the event puts a constant on the stack. -/
structure Adds (setting : Setting) (event : Event) (block : Block) (operand : Operand) (number : Int32)
    (supply : Supply) (codes : List Opcode) : Prop where
  runs : Runs setting [event] block { block with stack := block.stack ++ [operand], supply, codes }
  added : IsConstant supply.types operand number
  keeps : Keeps block.supply.types supply.types
  codes : Opcode.new ∉ codes

theorem exists_adds (setting : Setting) {event : Event} {number : Int32} (pushes : Pushes event number)
    (hNew : Opcode.new ∉ block.codes) :
    ∃ operand supply codes, Adds setting event block operand number supply codes := by
  obtain ⟨op, hCode, hOp, hAccept⟩ := Arithmetic.Instruction.accept_constant pushes
  refine ⟨_, _, op :: block.codes, ?_, isConstant_int number block.supply, fun _ _ => .add, ?_⟩
  · exact .single hCode (hAccept ▸ Yields.bind (Block.yields_record op)
      (Yields.bind (Block.yields_supply _) (Block.yields_push _)))
  · exact List.not_mem_cons_of_ne_of_not_mem hOp.1.symm hNew

/-- Before a store the array is duplicated, and the index and the value are pushed. -/
theorem runs_prepare (setting : Setting) {ofIndex ofValue : Event} {place number : Int32}
    (hIndex : Pushes ofIndex place) (hValue : Pushes ofValue number) (hStack : block.stack = rest ++ [top])
    (hNew : Opcode.new ∉ block.codes) :
    ∃ index value supply codes,
      Runs setting [.insn .dup, ofIndex, ofValue] block
        { block with stack := rest ++ [{ top with duplicated := true }] ++ [index] ++ [value], supply, codes } ∧
      IsConstant supply.types index place ∧ IsConstant supply.types value number ∧
      Keeps block.supply.types supply.types ∧ Opcode.new ∉ codes := by
  let copied : Block :=
    { block with stack := rest ++ [{ top with duplicated := true }], codes := .dup :: block.codes }
  have runsCopy : Runs setting [.insn .dup] block copied :=
    .single rfl (Yields.bind (Block.yields_record .dup)
      (Block.yields_duplicate hStack (InstructionHistory.endsInTemplate_new hNew _ _)))
  have hCopied : Opcode.new ∉ copied.codes := List.not_mem_cons_of_ne_of_not_mem nofun hNew
  obtain ⟨index, supply, codes, indexed⟩ := exists_adds setting hIndex hCopied
  let before : Block := { copied with stack := copied.stack ++ [index], supply, codes }
  have hBefore : Opcode.new ∉ before.codes := indexed.codes
  obtain ⟨value, supply', codes', valued⟩ := exists_adds setting hValue hBefore
  exact ⟨index, value, supply', codes', runsCopy.append (indexed.runs.append valued.runs),
    valued.keeps _ _ indexed.added, valued.added,
    fun operand number known => valued.keeps _ _ (indexed.keeps _ _ known), valued.codes⟩

/-! ### Stores -/

theorem yields_endsInStep (template : List Pattern) (state : Execution) :
    ∃ found, Yields setting (endsInStep template) state found state := by
  cases hFound : state.history.endsInTemplate template with
  | true =>
      have hEnds : Yields setting (endsIn template) state true state := hFound ▸ yields_endsIn template state
      exact ⟨true, hEnds.bind (yields_pure true state)⟩
  | false =>
      have hEnds : Yields setting (endsIn template) state false state := hFound ▸ yields_endsIn template state
      exact ⟨_, hEnds.bind (yields_endsIn _ state)⟩

theorem yields_incrementOrder? (after before : List Pattern) (state : Execution) :
    ∃ order, Yields setting (incrementOrder? after before) state order state := by
  obtain ⟨foundAfter, hAfter⟩ : ∃ found, Yields setting (endsInStep after) state found state := yields_endsInStep _ _
  obtain ⟨foundBefore, hBefore⟩ : ∃ found, Yields setting (endsInStep before) state found state := yields_endsInStep _ _
  cases foundAfter with
  | true => exact ⟨some true, hAfter.bind rfl⟩
  | false =>
      cases foundBefore with
      | true => exact ⟨some false, hAfter.bind (hBefore.bind rfl)⟩
      | false => exact ⟨none, hAfter.bind (hBefore.bind rfl)⟩

/-- A constant is no step by one. -/
theorem yields_foldElementIncrement {number : Number} (hStack : block.stack = rest ++ [value])
    (hValue : value.kind = .number number) :
    Yields setting foldElementIncrement block.execution false block.execution := by
  obtain ⟨order, hOrder⟩ : ∃ order, Yields setting _ block.execution order block.execution :=
    yields_incrementOrder?
      [Opcode.dup2, Category.arrayLoad, Opcode.dup_x2, Category.one, Category.add, Category.arrayStore]
      [Opcode.dup2, Category.arrayLoad, Category.one, Category.add, Opcode.dup_x2, Category.arrayStore] block.execution
  refine hOrder.bind (Block.yields_peek?.bind ?_)
  have hStep : step? (fun _ => true) value = none := by rw [step?, hValue]
  rw [hStack, List.getLast?_concat, Option.bind_some, hStep]
  cases order <;> rfl

/-- The end of a store: the array with a longer initializer, or an assignment. -/
def finishStore (index value : Operand) : Option Operand → ExecutionM Unit
  | some array => changeEntry 0 fun _ => array
  | none => do
    let array ← pop 0
    let target ← Operand.guessed (.element array index) (← elementTypeOf array)
    assign target { value with duplicated := false } value.duplicated

theorem accept_iastore : accept (.insn .iastore) = (do
    record .iastore
    if ← foldElementIncrement then return
    let value ← take 0
    let index ← pop 0
    discard here
    let array? ← Execution.peek? 0
    finishStore index value (array?.bind (initialized? · index value))) := rfl

/-- The store of a constant comes to its end with the array on top. -/
theorem runs_iastore {after : Block} {number : Number} (hStack : block.stack = rest ++ [top] ++ [index] ++ [value])
    (hIndex : index.duplicated = false) (hValue : value.kind = .number number)
    (hFinish : Yields setting (finishStore index value (initialized? top index value))
      { block with stack := rest ++ [top], codes := .iastore :: block.codes }.execution () after.execution) :
    Runs setting [.insn .iastore] block after := by
  let recorded : Block := { block with codes := .iastore :: block.codes }
  let popped : Block := { recorded with stack := rest ++ [top] }
  have hFold : Yields setting foldElementIncrement recorded.execution false recorded.execution :=
    yields_foldElementIncrement hStack hValue
  have hTake : Yields setting (take 0) recorded.execution value
      { recorded with stack := rest ++ [top] ++ [index] }.execution := Block.yields_take hStack
  have hPop : Yields setting (pop 0) { recorded with stack := rest ++ [top] ++ [index] }.execution index
      popped.execution := Block.yields_pop rfl hIndex
  have hHere : Yields setting (discard here) popped.execution () popped.execution := rfl
  have hPeek : Yields setting (Execution.peek? 0) popped.execution (some top) popped.execution := by
    have hLast : popped.stack.getLast? = some top := List.getLast?_concat
    exact hLast ▸ Block.yields_peek?
  refine .single rfl ?_
  rw [accept_iastore]
  exact (Block.yields_record .iastore).bind (hFold.bind (hTake.bind (hPop.bind (hHere.bind (hPeek.bind hFinish)))))

theorem runs_fill (setting : Setting) {array : Operand} {number : Number}
    (hStack : block.stack = rest ++ [top] ++ [index] ++ [value]) (hIndex : index.duplicated = false)
    (hValue : value.kind = .number number) (hArray : initialized? top index value = some array) :
    Runs setting [.insn .iastore] block { block with stack := rest ++ [array], codes := .iastore :: block.codes } := by
  refine runs_iastore hStack hIndex hValue ?_
  rw [hArray]
  exact Block.yields_changeEntry rfl _

/-- A store that does not continue an initializer leaves an assignment above what it takes for its array. -/
theorem runs_assign (setting : Setting) {number : Number} (hStack : block.stack = rest ++ [top] ++ [index] ++ [value])
    (hIndex : index.duplicated = false) (hValue : value.kind = .number number) (hSingle : value.duplicated = false)
    (hTop : top.duplicated = true) (hArray : initialized? top index value = none) :
    ∃ target stored id type supply, Runs setting [.insn .iastore] block
      { block with
        stack := rest ++ [{ top with duplicated := false }] ++
          [({ id, type, statement := true, kind := .assign target .assign stored } : Operand)]
        supply
        codes := .iastore :: block.codes } := by
  let popped : Block := { block with stack := rest ++ [top], codes := .iastore :: block.codes }
  let left : Block := { popped with stack := rest ++ [{ top with duplicated := false }] }
  have hPop : Yields setting (pop 0) popped.execution { top with duplicated := false } left.execution :=
    Block.yields_pop_duplicated rfl hTop
  let type : JvmType := (left.graph.typeOf { top with duplicated := false }).element?.getD .unknown
  let made := (Operand.guessed (.element { top with duplicated := false } index) type).run left.supply
  let targeted : Block := { left with supply := made.2 }
  have hType : Yields setting (elementTypeOf { top with duplicated := false }) left.execution type left.execution := rfl
  have hTarget : Yields setting
      (Operand.guessed (.element { top with duplicated := false } index) type : ExecutionM Operand)
      left.execution made.1 targeted.execution := Block.yields_supply _
  obtain ⟨kind, hAssign, form⟩ : ∃ kind, Yields setting (assignment made.1 { value with duplicated := false } false)
      targeted.execution { id := targeted.supply.nextId, type := made.1.type, kind } targeted.execution.identified ∧
      AssignmentForm (isNumeric (targeted.graph.typeOf made.1)) made.1 { value with duplicated := false } false kind :=
    yields_assignment _ _ _ _
  have hKind : kind = .assign made.1 .assign { value with duplicated := false } := by
    cases form with
    | plain => rfl
    | compound hBinary | step hBinary => exact nomatch hValue.symm.trans hBinary
  rw [hKind] at hAssign
  refine ⟨made.1, { value with duplicated := false }, targeted.supply.nextId, made.1.type,
    { targeted.supply with nextId := targeted.supply.nextId + 1 }, runs_iastore hStack hIndex hValue ?_⟩
  rw [hArray]
  refine hPop.bind (hType.bind (hTarget.bind ?_))
  rw [hSingle]
  exact hAssign.bind rfl

/-! ### The array on the stack -/

theorem initialized?_eq {array size : Operand} {element : JvmType} {length position : Int32}
    {initializers : Option (List Operand)} (hArray : array.kind = .newArray element [size] initializers)
    (hSize : size.kind = .number (.int length)) (hIndex : index.kind = .number (.int position)) :
    initialized? array index value =
      if array.duplicated && position < length && (initializers.getD []).length == position.toInt then
        some { array with
          kind := .newArray element [size] (some (initializers.getD [] ++ [value])), duplicated := false }
      else none := by
  cases array
  cases size
  cases index
  cases hArray
  cases hSize
  cases hIndex
  rfl

theorem initialized?_of_assign {target stored : Operand} {operator : AssignOperator}
    (hTop : top.kind = .assign target operator stored) : initialized? top index value = none := by
  cases top
  cases hTop
  rfl

/-- The stack holds a new array of the length, and its initializer holds the values. -/
structure Filling (length : Int32) (values : List Int32) (block : Block) : Prop where
  array : ∃ id statement size elements, block.stack = [({
      id, type := .known (.array .int), statement
      kind := .newArray .int [size] (if values = [] then none else some elements) } : Operand)] ∧
    IsConstant block.supply.types size length ∧ List.Forall₂ (IsConstant block.supply.types) elements values
  codes : Opcode.new ∉ block.codes

theorem getD_filled {types : TypeCells} {elements : List Operand} {values : List Int32}
    (areElements : List.Forall₂ (IsConstant types) elements values) :
    (if values = [] then none else some elements).getD [] = elements := by
  cases areElements <;> rfl

/-- On top of the stack is the assignment to an element, and no condition lies below. -/
structure Strayed (block : Block) : Prop where
  top : ∃ rest top target stored, block.stack = rest ++ [top] ∧ top.kind = .assign target .assign stored ∧
    top.duplicated = false
  plain : ∀ operand ∈ block.stack, operand.isCondition = false
  codes : Opcode.new ∉ block.codes

/-- Executing the events leads to a state of the block with the property. -/
def Reaches (setting : Setting) (events : List Event) (block : Block) (property : Block → Prop) : Prop :=
  ∃ stack supply codes, Runs setting events block { block with stack, supply, codes } ∧
    property { block with stack, supply, codes }

theorem Reaches.here {property : Block → Prop} (hProperty : property block) : Reaches setting [] block property :=
  ⟨block.stack, block.supply, block.codes, .nil block, hProperty⟩

theorem Reaches.andThen {events others : List Event} {property other : Block → Prop}
    (first : Reaches setting events block property)
    (second : ∀ stack supply codes, property { block with stack, supply, codes } →
      Reaches setting others { block with stack, supply, codes } other) :
    Reaches setting (events ++ others) block other := by
  obtain ⟨stack, supply, codes, runs, hProperty⟩ := first
  obtain ⟨stack', supply', codes', follows, hOther⟩ := second stack supply codes hProperty
  exact ⟨stack', supply', codes', runs.append follows, hOther⟩

section

variable {length place number : Int32} {values : List Int32} {ofIndex ofValue : Event}
  (hIndex : Pushes ofIndex place) (hValue : Pushes ofValue number)

include hIndex hValue

/-- A store that is no part of an initializer leaves an assignment. -/
theorem strays (hStack : block.stack = rest ++ [top]) (hPlain : ∀ operand ∈ block.stack, operand.isCondition = false)
    (hNew : Opcode.new ∉ block.codes)
    (hArray : ∀ index value, index.kind = .number (.int place) →
      initialized? { top with duplicated := true } index value = none) :
    Reaches setting [.insn .dup, ofIndex, ofValue, .insn .iastore] block Strayed := by
  obtain ⟨index, value, supply, codes, runs, isIndex, isValue, -, hCodes⟩ :=
    runs_prepare setting hIndex hValue hStack hNew
  let prepared : Block :=
    { block with stack := rest ++ [{ top with duplicated := true }] ++ [index] ++ [value], supply, codes }
  have hPrepared : prepared.stack = rest ++ [{ top with duplicated := true }] ++ [index] ++ [value] := rfl
  obtain ⟨target, stored, id, type, supply', follows⟩ :=
    runs_assign setting hPrepared isIndex.single isValue.kind isValue.single rfl (hArray index value isIndex.kind)
  refine ⟨_, _, _, runs.append follows, ⟨_, _, target, stored, rfl, rfl, rfl⟩, ?_,
    List.not_mem_cons_of_ne_of_not_mem nofun hCodes⟩
  intro operand hOperand
  rw [List.mem_append, List.mem_append, List.mem_singleton, List.mem_singleton] at hOperand
  rcases hOperand with (hRest | rfl) | rfl
  · exact hPlain operand (hStack ▸ List.mem_append_left _ hRest)
  · exact hPlain top (hStack ▸ List.mem_append_right _ List.mem_cons_self)
  · rfl

theorem Strayed.again (strayed : Strayed block) :
    Reaches setting [.insn .dup, ofIndex, ofValue, .insn .iastore] block Strayed := by
  obtain ⟨rest, top, target, stored, hStack, hTop, -⟩ := strayed.top
  exact strays hIndex hValue hStack strayed.plain strayed.codes fun _ _ _ => initialized?_of_assign hTop

theorem Filling.stray (filling : Filling length values block) (hPlace : place.toInt ≠ values.length) :
    Reaches setting [.insn .dup, ofIndex, ofValue, .insn .iastore] block Strayed := by
  obtain ⟨id, statement, size, elements, hStack, isSize, areElements⟩ := filling.array
  refine strays hIndex hValue (hStack.trans (List.nil_append _).symm) ?_ filling.codes fun index value hNumber => ?_
  · rw [hStack, List.forall_mem_singleton]
    rfl
  · have hOther : (values.length == place.toInt) = false := beq_false_of_ne fun hSame => hPlace hSame.symm
    rw [initialized?_eq rfl isSize.kind hNumber, getD_filled areElements, areElements.length_eq, hOther, Bool.and_false,
      if_neg Bool.false_ne_true]

theorem Filling.extend (filling : Filling length values block) (hPlace : place.toInt = values.length)
    (hInside : place < length) :
    Reaches setting [.insn .dup, ofIndex, ofValue, .insn .iastore] block (Filling length (values ++ [number])) := by
  obtain ⟨id, statement, size, elements, hStack, isSize, areElements⟩ := filling.array
  obtain ⟨index, value, supply, codes, runs, isIndex, isValue, keeps, hCodes⟩ :=
    runs_prepare setting hIndex hValue (hStack.trans (List.nil_append _).symm) filling.codes
  let copied : Operand :=
    { id, type := .known (.array .int), duplicated := true, statement
      kind := .newArray .int [size] (if values = [] then none else some elements) }
  let array : Operand :=
    { id, type := .known (.array .int), statement, kind := .newArray .int [size] (some (elements ++ [value])) }
  have hArray : initialized? copied index value = some array := by
    have hNext : (copied.duplicated && decide (place < length) && elements.length == place.toInt) = true := by
      rw [decide_eq_true hInside, areElements.length_eq, hPlace]
      exact beq_self_eq_true _
    rw [initialized?_eq rfl isSize.kind isIndex.kind, getD_filled areElements, if_pos hNext]
  let prepared : Block := { block with stack := [] ++ [copied] ++ [index] ++ [value], supply, codes }
  have hPrepared : prepared.stack = [] ++ [copied] ++ [index] ++ [value] := rfl
  have follows := runs_fill setting hPrepared isIndex.single isValue.kind hArray
  refine ⟨_, _, _, runs.append follows, ⟨id, statement, size, elements ++ [value], ?_, keeps _ _ isSize, ?_⟩,
    List.not_mem_cons_of_ne_of_not_mem nofun hCodes⟩
  · rw [if_neg (by simp)]
    rfl
  · exact List.rel_append (areElements.imp fun _ _ => keeps _ _) (.cons isValue .nil)

end

/-! ### All stores -/

section

variable {length : Int32} {values : List Int32} {events : List Event} {stores : List Store}

theorem Strayed.run (strayed : Strayed block) (stored : Stores length events stores) :
    Reaches setting events block Strayed := by
  induction stored generalizing block with
  | nil => exact .here strayed
  | cons hIndex hValue hBounds others ih =>
      exact (strayed.again hIndex hValue).andThen fun _ _ _ strayed => ih strayed

/-- Consecutive stores extend the initializer, and with the first other one the array is lost. -/
theorem Filling.run (filling : Filling length values block) (stored : Stores length events stores) :
    Reaches setting events block fun after =>
      if Consecutive values.length stores then Filling length (values ++ stores.map Prod.snd) after
      else Strayed after := by
  induction stored generalizing values block with
  | nil =>
      refine .here ?_
      have hNone : Consecutive values.length [] := trivial
      rwa [if_pos hNone, List.map_nil, List.append_nil]
  | @cons ofIndex ofValue index value events stores hIndex hValue hBounds others ih =>
      by_cases hPlace : index.toInt = values.length
      · refine (filling.extend hIndex hValue hPlace hBounds.2).andThen fun _ _ _ filling => ?_
        have hSame : Consecutive values.length ((index, value) :: stores) ↔
            Consecutive (values ++ [value]).length stores := by
          rw [List.length_append, List.length_singleton]
          exact and_iff_right hPlace
        have hValues : values ++ ((index, value) :: stores).map Prod.snd = values ++ [value] ++ stores.map Prod.snd :=
          List.append_cons values value _
        simp only [hSame, hValues]
        exact ih filling
      · have hOther : ¬Consecutive values.length ((index, value) :: stores) := fun consecutive => hPlace consecutive.1
        simp only [if_neg hOther]
        exact (filling.stray hIndex hValue hPlace).andThen fun _ _ _ strayed => strayed.run others

end

/-! ### Units -/

/-- The array is created before the stores. -/
theorem filling_start {unit : CompiledUnit} {descriptor : MethodDescriptor} {size : Event} {length : Int32}
    (hSize : Pushes size length) :
    Reaches setting [size, .int .newarray 10] (.start unit descriptor) (Filling length []) := by
  have hNew : Opcode.new ∉ (Block.start unit descriptor).codes :=
    List.not_mem_cons_of_ne_of_not_mem nofun List.not_mem_nil
  obtain ⟨operand, supply, codes, sized⟩ := exists_adds setting hSize hNew
  let before : Block := { Block.start unit descriptor with stack := [operand], supply, codes }
  have runsCreate : Runs setting [.int .newarray 10] before
      { before with
        stack := [{ id := supply.nextId, type := .known (.array .int), kind := .newArray .int [operand] none }]
        supply := { supply with nextId := supply.nextId + 1 }
        codes := .newarray :: codes } := by
    have hPop : Yields setting (pop 0) { before with codes := .newarray :: codes }.execution operand
        { before with stack := [], codes := .newarray :: codes }.execution := Block.yields_pop rfl sized.added.single
    exact .single rfl ((Block.yields_record .newarray).bind (hPop.bind rfl))
  refine ⟨_, _, _, sized.runs.append runsCreate, ⟨supply.nextId, false, operand, [], rfl, sized.added, .nil⟩, ?_⟩
  exact List.not_mem_cons_of_ne_of_not_mem nofun sized.codes

theorem mapM_int?_ofList {scope : Code.Scope} {elements : List Operand} {values : List Int32}
    (areElements : List.Forall₂ (IsConstant scope.types) elements values) :
    (Code.ofList scope elements).mapM Code.int? = some values := by
  induction areElements with
  | nil => rfl
  | cons isElement others ih =>
      rw [Code.ofList, List.mapM_cons, isElement.code, ih]
      rfl

/-- The array is written with its values if it has any, and with its length otherwise. -/
theorem created?_array {scope : Code.Scope} {length : Int32} {values : List Int32} {size : Operand}
    {elements : List Operand} (isSize : IsConstant scope.types size length)
    (areElements : List.Forall₂ (IsConstant scope.types) elements values) (id : OperandId) (type : TypeRef)
    (statement : Bool) :
    (Code.ofOperand scope 0 {
      id, type, statement
      kind := .newArray .int [size] (if values = [] then none else some elements) }).created? =
        some (if values = [] then List.replicate length.toInt.toNat 0 else values) := by
  change (Code.newArray .int [Code.ofOperand scope 0 size] (Code.ofInitializers scope _)).created? = _
  rw [isSize.code]
  by_cases hNone : values = []
  · rw [if_pos hNone, if_pos hNone]
    rfl
  · rw [if_neg hNone, if_neg hNone]
    exact mapM_int?_ofList areElements

section

variable {unit : CompiledUnit} {descriptor : MethodDescriptor} {events : List Event} {supply : Supply}
  {codes : List Opcode}

/-- A unit without branches that returns what is on top of the stack. -/
theorem created?_returned (hText : MethodDescriptor.ofText? unit.descriptor = some descriptor)
    (hBoolean : descriptor.result ≠ .boolean) (hChar : descriptor.result ≠ .char)
    (hEvents : unit.events = events ++ [.insn .areturn])
    (runs : Runs setting events (.start unit descriptor)
      { Block.start unit descriptor with stack := rest ++ [top], supply, codes })
    (hSingle : top.duplicated = false) (hPlain : ∀ operand ∈ rest, operand.isCondition = false) :
    ∃ body locals, (MethodBody.ofUnit unit setting).1 = .ok body ∧
      body.created? = (Code.ofOperand
        { types := ((top.coerce descriptor.result).run supply).2.types, locals, switchValue := default } 0
          top).created? := by
  let reached : Block := { Block.start unit descriptor with stack := rest ++ [top], supply, codes }
  let recorded : Block := { reached with codes := .areturn :: codes }
  let told := ((top.coerce descriptor.result).run supply).2
  let result : Operand :=
    { id := told.nextId, type := .known descriptor.result, statement := true, kind := .returns (some top) }
  let final : Block :=
    { recorded with
      stack := rest ++ [result]
      destination := some .termination
      supply := { told with nextId := told.nextId + 1 } }
  have hPop : Yields setting (pop 0) recorded.execution top { recorded with stack := rest }.execution :=
    Block.yields_pop rfl hSingle
  have hReturn : Yields setting (returnValue .areturn) recorded.execution () final.execution :=
    Block.yields_return nofun (.inl hBoolean) hPop (.inl ⟨hBoolean, hChar⟩)
  have runsReturn : Runs setting [.insn .areturn] reached final :=
    .single rfl ((Block.yields_record .areturn).bind hReturn)
  have hStack : final.stack ≠ [] := List.append_ne_nil_of_right_ne_nil _ (List.cons_ne_nil _ _)
  have hFinal : ∀ operand ∈ final.stack, operand.isCondition = false := by
    intro operand hOperand
    rcases List.mem_append.mp hOperand with hRest | hResult
    · exact hPlain operand hRest
    · rw [List.mem_singleton.mp hResult]
      rfl
  have hBody := MethodBody.ofUnit_eq hText (hEvents ▸ (runs.append runsReturn).ofInitial (by simp)) hStack hFinal
  have hLocals : ∀ entry ∈ final.locals.list, entry.parameter = true := fun _ =>
    LocalVariables.parameter_of_mem_parameterEntries
  rw [Block.finished_of_parameters hLocals] at hBody
  refine ⟨_, final.locals, hBody, ?_⟩
  have hOperands : final.settled.operands.getLast? = some result := by
    change (List.flatMap _ [0]).getLast? = _
    rw [List.flatMap_singleton]
    exact List.getLast?_concat
  change (match final.settled.operands.getLast?.map Operand.kind with
    | some (.returns (some value)) => (Code.ofOperand _ 0 value).created?
    | _ => none) = _
  rw [hOperands]
  rfl

/-- A value with a certain type learns nothing from the place that it is stored into. -/
theorem types_coerce {value : Operand} {known type : JvmType} (hKnown : value.type = .known known)
    (stored : value.StoredAs type) (supply : Supply) : ((value.coerce type).run supply).2.types = supply.types := by
  rw [stored.coerce, Operand.suggestStored]
  split
  · rfl
  · change supply.types.suggest value.type type = _
    rw [hKnown]
    rfl

theorem created?_assign {scope : Code.Scope} {target stored : Operand}
    (hTop : top.kind = .assign target .assign stored) : (Code.ofOperand scope 0 top).created? = none := by
  cases top
  cases hTop
  rw [Code.ofOperand]
  split <;> rfl

/-- Initializers and arrays of zeros agree where the initializer is empty or full. -/
theorem initializer_iff {stores : List Store} {length : Nat} (hFits : stores.length ≤ length) :
    (if stores.map Prod.snd = [] then List.replicate length 0 else stores.map Prod.snd) =
        stores.map Prod.snd ++ List.replicate (length - stores.length) 0 ↔
      stores = [] ∨ stores.length = length := by
  by_cases hNone : stores = []
  · simp [hNone]
  · have hSome : stores.map Prod.snd ≠ [] := fun hMap => hNone (List.map_eq_nil_iff.mp hMap)
    rw [if_neg hSome, List.self_eq_append_right, List.replicate_eq_nil_iff, or_iff_right hNone]
    omega

/-- The elements that the unit creates are those that its instructions leave in the array if nothing is stored, or if
the stores fill the array from the first element to the last one in order. Otherwise the array is too short, or it is
lost. -/
theorem created?_iff {size : Event} {length : Int32} {stores : List Store}
    (hText : MethodDescriptor.ofText? unit.descriptor = some descriptor)
    (hResult : descriptor.result.isPrimitive = false) (hSize : Pushes size length) (hLength : 0 ≤ length)
    (stored : Stores length events stores)
    (hEvents : unit.events = size :: .int .newarray 10 :: (events ++ [.insn .areturn])) :
    ∃ body elements, (MethodBody.ofUnit unit setting).1 = .ok body ∧
      ({} : Machine).returned? unit.events = some elements ∧
      (body.created? = some elements ↔
        stores = [] ∨ Consecutive 0 stores ∧ stores.length = length.toInt.toNat) := by
  have reaches : Reaches setting ([size, .int .newarray 10] ++ events) (.start unit descriptor) fun after =>
      if Consecutive 0 stores then Filling length (stores.map Prod.snd) after else Strayed after :=
    (filling_start hSize).andThen fun _ _ _ filling => filling.run stored
  obtain ⟨stack, supply, codes, runs, hReached⟩ := reaches
  have hBoolean : descriptor.result ≠ .boolean := fun hType => by rw [hType] at hResult; cases hResult
  have hChar : descriptor.result ≠ .char := fun hType => by rw [hType] at hResult; cases hResult
  have hMachine := Machine.returned?_unit hSize hLength stored
  rw [← hEvents] at hMachine
  by_cases consecutive : Consecutive 0 stores
  · rw [if_pos consecutive] at hReached
    obtain ⟨id, statement, operand, elements, hStack, isSize, areElements⟩ := hReached.array
    obtain rfl : stack = [] ++ [_] := hStack
    obtain ⟨body, locals, hBody, hCreated⟩ := created?_returned hText hBoolean hChar hEvents runs rfl
      (List.forall_mem_nil _)
    refine ⟨body, _, hBody, hMachine, ?_⟩
    rw [types_coerce rfl (.inl ⟨hBoolean, hChar⟩)] at hCreated
    have hFits : stores.length ≤ length.toInt.toNat := by
      have hFits := stored.fits consecutive (Int32.le_iff_toInt_le.mp hLength)
      rwa [Nat.zero_add] at hFits
    have hWritten : written (List.replicate length.toInt.toNat 0) stores =
        stores.map Prod.snd ++ List.replicate (length.toInt.toNat - stores.length) 0 :=
      written_of_consecutive (show Consecutive ([] : List Int32).length stores from consecutive) hFits
    rw [hCreated, created?_array isSize areElements, Option.some_inj, hWritten, initializer_iff hFits,
      and_iff_right consecutive]
  · rw [if_neg consecutive] at hReached
    obtain ⟨rest, top, target, value, hStack, hTop, hSingle⟩ := hReached.top
    obtain rfl : stack = rest ++ [top] := hStack
    obtain ⟨body, locals, hBody, hCreated⟩ := created?_returned hText hBoolean hChar hEvents runs hSingle
      fun operand hOperand => hReached.plain operand (List.mem_append_left _ hOperand)
    refine ⟨body, _, hBody, hMachine, ?_⟩
    rw [hCreated, created?_assign hTop]
    refine iff_of_false (Option.some_ne_none _).symm (not_or.mpr ⟨?_, fun filled => consecutive filled.1⟩)
    rintro rfl
    exact consecutive trivial

/-- An array of three elements that holds a seven at first is written as an array of one. -/
example :
    let unit : CompiledUnit := ⟨"A", "m", "()[I", true,
      [.insn .iconst_3, .int .newarray 10, .insn .dup, .insn .iconst_0, .int .bipush 7, .insn .iastore, .insn .areturn]⟩
    (MethodBody.ofUnit unit {}).1.toOption.bind MethodBody.created? = some [7] ∧
      ({} : Machine).returned? unit.events = some [7, 0, 0] := by
  decide +kernel

end

end Initializer

end Decompiler
