import Decompiler.Proofs.Execution.Straight
import Decompiler.Proofs.Expression.Compiled
import Decompiler.Proofs.Operand.Coercion
import Mathlib.Data.List.Forall2
import Mathlib.Tactic.IntervalCases

/-!
Symbolic execution undoes the compilation of expressions. Executing the instructions of an expression leaves one
more operand, which represents it; the fold that a load or a return might make of several instructions needs an
increment or a frame before it, which no expression compiles to.
-/

namespace Decompiler

open Execution

variable {setting : Setting} {block : Block} {rest : List Operand}

/-- No increment of a local and no frame is among the codes. -/
def Uneventful (codes : List Opcode) : Prop := ∀ op ∈ codes, op ≠ .iinc ∧ op.isFrame = false

/-- Instructions that are no increments and no frames give no idiom a reason to apply. -/
theorem Uneventful.cons {codes : List Opcode} {op : Opcode} (hOp : op ≠ .iinc ∧ op.isFrame = false)
    (uneventful : Uneventful codes) : Uneventful (op :: codes) := by
  intro found hFound
  rcases List.mem_cons.mp hFound with rfl | hFound
  · exact hOp
  · exact uneventful found hFound

namespace Block

/-- Executing the events leaves the stack with one more operand of a property in the end, and neither the locals nor
the history give an idiom a reason to apply. -/
def Leaves (setting : Setting) (events : List Event) (block : Block) (rest : List Operand)
    (property : Operand → Prop) : Prop :=
  ∃ operand supply codes touched,
    Runs setting events block { block with stack := rest ++ [operand], supply, codes, touched } ∧
      operand.duplicated = false ∧ property operand ∧ Uneventful codes

/-- Less may be claimed of the operand. -/
theorem Leaves.imp {events : List Event} {property other : Operand → Prop}
    (leaves : Leaves setting events block rest property)
    (hImp : ∀ operand, property operand → other operand) : Leaves setting events block rest other := by
  obtain ⟨operand, supply, codes, touched, runs, hSingle, hProperty, uneventful⟩ := leaves
  exact ⟨operand, supply, codes, touched, runs, hSingle, hImp operand hProperty, uneventful⟩

/-- The instructions before may leave the stack as they like. -/
theorem Leaves.afterRuns {events others : List Event} {stack : List Operand} {supply : Supply} {codes : List Opcode}
    {touched : List UInt16} {property : Operand → Prop}
    (leaves : Leaves setting others { block with stack, supply, codes, touched } rest property)
    (runs : Runs setting events block { block with stack, supply, codes, touched }) :
    Leaves setting (events ++ others) block rest property := by
  obtain ⟨operand, supply, codes, touched, follows, hOperand⟩ := leaves
  exact ⟨operand, supply, codes, touched, runs.append follows, hOperand⟩

/-- The operand that the first instructions leave is taken up by the next ones. -/
theorem Leaves.bind {events others : List Event} {below : List Operand} {property other : Operand → Prop}
    (first : Leaves setting events block below property)
    (second : ∀ operand supply codes touched, operand.duplicated = false → property operand → Uneventful codes →
      Leaves setting others { block with stack := below ++ [operand], supply, codes, touched } rest other) :
    Leaves setting (events ++ others) block rest other := by
  obtain ⟨operand, supply, codes, touched, runs, hSingle, hProperty, uneventful⟩ := first
  exact (second operand supply codes touched hSingle hProperty uneventful).afterRuns runs

/-- A new operand is put on the rest of the stack. -/
def Pushes (setting : Setting) (action : ExecutionM Unit) (block : Block) (rest : List Operand) (kind : OperandKind) :
    Prop :=
  ∃ operand supply,
    Yields setting action block.execution () { block with stack := rest ++ [operand], supply }.execution ∧
      operand.duplicated = false ∧ operand.kind = kind

theorem pushes_make (kind : OperandKind) (type : TypeRef) :
    Pushes setting (do push (← Operand.make kind type)) block block.stack kind :=
  ⟨_, _, (yields_supply _).bind (yields_push _), rfl, rfl⟩

theorem pushes_typed (kind : OperandKind) (type : JvmType) :
    Pushes setting (do push (← Operand.typed kind type)) block block.stack kind := pushes_make kind _

theorem pushes_guessed (kind : OperandKind) (type : JvmType) :
    Pushes setting (do push (← Operand.guessed kind type)) block block.stack kind :=
  ⟨_, _, (yields_supply _).bind (yields_push _), rfl, rfl⟩

/-- Leaves a call, as a statement if it has no result. -/
def pushResult (kind : OperandKind) (type : JvmType) : ExecutionM Unit := do
  let result ← Operand.typed kind type
  if type = .void then pushStatement result else push result

/-- A call with a result leaves it on the stack. -/
theorem pushes_result (kind : OperandKind) {type : JvmType} (hType : type ≠ .void) :
    Pushes setting (pushResult kind type) block block.stack kind := by
  simp only [pushResult, if_neg hType]
  exact pushes_typed kind type

theorem pushes_int (value : Int32) :
    Pushes setting (do push (← Operand.int value)) block block.stack (.number (.int value)) := pushes_guessed _ .int

/-- A step before the operand is put there. -/
theorem Pushes.bind {α : Type} {action : ExecutionM α} {next : α → ExecutionM Unit} {value : α} {stack : List Operand}
    {supply : Supply} {kind : OperandKind}
    (first : Yields setting action block.execution value { block with stack, supply }.execution)
    (pushes : Pushes setting (next value) { block with stack, supply } rest kind) :
    Pushes setting (action >>= next) block rest kind := by
  obtain ⟨operand, supply, second, hNew⟩ := pushes
  exact ⟨operand, supply, first.bind second, hNew⟩

/-- A step that only looks. -/
theorem Pushes.after {α : Type} {action : ExecutionM α} {next : α → ExecutionM Unit} {value : α} {kind : OperandKind}
    (first : Yields setting action block.execution value block.execution)
    (pushes : Pushes setting (next value) block rest kind) : Pushes setting (action >>= next) block rest kind :=
  .bind first pushes

/-- An operand that is no copy is taken off first. -/
theorem Pushes.pop {next : Operand → ExecutionM Unit} {below : List Operand} {top : Operand} {kind : OperandKind}
    (hStack : block.stack = below ++ [top]) (hSingle : top.duplicated = false)
    (pushes : Pushes setting (next top) { block with stack := below } rest kind) :
    Pushes setting (Execution.pop 0 >>= next) block rest kind := .bind (yields_pop hStack hSingle) pushes

/-- An instruction that enters its code and then puts an operand on the stack. -/
theorem Pushes.leaves {event : Event} {op : Opcode} {action : ExecutionM Unit} {kind : OperandKind}
    (hCode : event.code? = some op) (hAccept : accept event = record op >>= fun _ => action)
    (hOp : op ≠ .iinc ∧ op.isFrame = false)
    (uneventful : Uneventful block.codes)
    (pushes : Pushes setting action { block with codes := op :: block.codes } rest kind) :
    Leaves setting [event] block rest (·.kind = kind) := by
  obtain ⟨operand, supply, yields, hSingle, hKind⟩ := pushes
  refine ⟨operand, supply, op :: block.codes, block.touched, .single hCode ?_, hSingle, hKind, uneventful.cons hOp⟩
  rw [hAccept]
  exact (yields_record op).bind yields

end Block

open Block

/-- Without symbols, members are described by their descriptors. -/
theorem yields_resolve {α : Type} {step : Symbols → Except Error α} {result : α}
    (hSymbols : setting.symbols = .descriptors) (hStep : step .descriptors = .ok result) (state : Execution) :
    Yields setting (resolve step) state result state := by
  refine Yields.bind (yields_read state) ?_
  rw [hSymbols, hStep]
  rfl

namespace MemberName

variable {member : MemberName}

/-- The member of a field as its descriptor describes it. -/
theorem ofField_of_isField (hField : member.isField = true) (isStatic : Bool) :
    ∃ type, Member.ofField member isStatic =
      .ok { declaringType := member.owner, name := member.name, parameters := [], valueType := type, isStatic } := by
  obtain ⟨type, hType, -⟩ := (Option.any_eq_true _ _).mp hField
  exact ⟨type, by rw [Member.ofField, hType]⟩

/-- The member of a method as its descriptor describes it, with as many parameters as there are arguments. -/
theorem ofMethod_of_isFunction {count : Nat} (hFunction : member.isFunction count = true) (isStatic : Bool) :
    ∃ descriptor : MethodDescriptor, Member.ofMethod member isStatic =
        .ok { declaringType := member.owner, name := member.name, parameters := descriptor.parameters
              valueType := descriptor.result, isStatic } ∧
      descriptor.result ≠ .void ∧ descriptor.parameters.length = count ∧
        ∀ type ∈ descriptor.parameters, type.isIntOrReference = true := by
  obtain ⟨descriptor, hText, hDescriptor⟩ := (Option.any_eq_true _ _).mp hFunction
  simp only [Bool.and_eq_true, bne_iff_ne, beq_iff_eq, List.all_eq_true] at hDescriptor
  exact ⟨descriptor, by rw [Member.ofMethod, hText], hDescriptor.1.1, hDescriptor.1.2, hDescriptor.2⟩

end MemberName

theorem plain_of_constant? {op : Opcode} {number : Number} (hConstant : constant? op = some number) :
    plain op = (record op >>= fun _ => do push (← Operand.number number)) := by
  unfold plain
  rw [hConstant]

/-- The instruction that pushes a small constant. -/
theorem constant?_pushInt {value : Int32} (hLow : -1 ≤ value) (hHigh : value ≤ 5) :
    constant? (Event.pushInt.constant value.toInt) = some (.int value) ∧
      Event.pushInt.constant value.toInt ≠ .iinc ∧ (Event.pushInt.constant value.toInt).isFrame = false := by
  have hLow' : -1 ≤ value.toInt := Int32.le_iff_toInt_le.mp hLow
  have hHigh' : value.toInt ≤ 5 := Int32.le_iff_toInt_le.mp hHigh
  rw [← Int32.ofInt_toInt value]
  generalize value.toInt = found at hLow' hHigh'
  interval_cases found <;> exact ⟨rfl, by decide, rfl⟩

/-- A load reads the increment before it only if there is one. -/
theorem Uneventful.endsInTemplate_increment {codes : List Opcode} (uneventful : Uneventful codes) (op : Opcode) :
    (InstructionHistory.ofCodes (op :: codes)).endsInTemplate [Opcode.iinc, Opcode.iload] = false := by
  have hPattern : ([Opcode.iinc, Opcode.iload] : List Pattern).reverse[1]? = some (.op .iinc) := rfl
  refine InstructionHistory.endsInTemplate_eq_false hPattern fun before hBefore => ?_
  exact beq_false_of_ne (uneventful before (List.mem_of_getElem? hBefore)).1.symm

namespace JvmType

variable {type : JvmType}

/-- Ints and references take one slot. -/
theorem isWide_of_isIntOrReference (hType : type.isIntOrReference = true) : type.isWide = false := by
  cases type with
  | int | reference | array => rfl
  | _ => cases hType

/-- The load for a type is no increment, and the kind of its slot is that of the type. -/
theorem loadOpcode_of_isIntOrReference (hType : type.isIntOrReference = true) :
    type.loadOpcode.isLoad = true ∧ (type.loadOpcode ≠ .iinc ∧ type.loadOpcode.isFrame = false) ∧
      (SlotKind.ofOpcode? type.loadOpcode).getD .reference = .ofType type := by
  cases type with
  | int | reference | array => exact ⟨rfl, ⟨nofun, rfl⟩, rfl⟩
  | _ => cases hType

theorem returnOpcode_ne (type : JvmType) : type.returnOpcode ≠ .vreturn ∧ type.returnOpcode.isFrame = false := by
  cases type <;> exact ⟨nofun, rfl⟩

theorem storedAs_of_isIntOrReference (hType : type.isIntOrReference = true) (value : Operand) :
    value.StoredAs type := by
  refine Or.inl ⟨?_, ?_⟩ <;> rintro rfl <;> cases hType

end JvmType

/-- Arguments are taken off the stack as they are. -/
theorem yields_popEach {types : List JvmType} {operands : List Operand} (hLength : operands.length = types.length)
    (hTypes : ∀ type ∈ types, type.isIntOrReference = true) (hSingle : ∀ operand ∈ operands, operand.duplicated = false)
    (block : Block) (hStack : block.stack = rest ++ operands.reverse) :
    ∃ supply, Yields setting (types.mapM fun type => do Operand.coerce (← pop 0) type) block.execution operands
      { block with stack := rest, supply }.execution := by
  induction types generalizing operands block with
  | nil =>
      obtain rfl : operands = [] := List.length_eq_zero_iff.mp hLength
      obtain rfl : block.stack = rest := hStack.trans (List.append_nil rest)
      exact ⟨block.supply, rfl⟩
  | cons type types ih =>
      obtain ⟨operand, operands, rfl⟩ := List.exists_cons_of_length_eq_add_one hLength
      simp only [List.mem_cons, forall_eq_or_imp] at hTypes hSingle
      have hTop : block.stack = (rest ++ operands.reverse) ++ [operand] := by
        rw [hStack, List.reverse_cons, List.append_assoc]
      have hStored := type.storedAs_of_isIntOrReference hTypes.1 operand
      obtain ⟨supply, hRest⟩ := ih (Nat.succ.inj hLength) hTypes.2 hSingle.2
        { block with
          stack := rest ++ operands.reverse, supply := ((operand.coerce type).run block.supply).2 } rfl
      refine ⟨supply, ?_⟩
      rw [List.mapM_cons]
      refine Yields.bind (Yields.bind (yields_pop hTop hSingle.1) (yields_supply _)) (Yields.bind hRest ?_)
      rw [show ((operand.coerce type).run _).1 = operand from hStored.coerce_fst _]
      rfl

/-- Arguments come off in order, with the types that the parameters have. -/
theorem yields_popArguments {types : List JvmType} {operands : List Operand} (hLength : operands.length = types.length)
    (hTypes : ∀ type ∈ types, type.isIntOrReference = true) (hSingle : ∀ operand ∈ operands, operand.duplicated = false)
    (block : Block) (hStack : block.stack = rest ++ operands) :
    ∃ supply, Yields setting (popArguments types) block.execution operands
      { block with stack := rest, supply }.execution := by
  have hLength' : operands.reverse.length = types.reverse.length := by simpa using hLength
  obtain ⟨supply, hEach⟩ := yields_popEach hLength' (by simpa using hTypes) (by simpa using hSingle) block
    (by simpa using hStack)
  refine ⟨supply, Yields.bind hEach ?_⟩
  rw [List.reverse_reverse]
  rfl

/-! ### Instructions -/

section

variable {x y : Operand} (uneventful : Uneventful block.codes)

include uneventful

/-- The two operands of an operator are replaced by one. -/
theorem leaves_arithmetic (operator : IntOperator) (hStack : block.stack = rest ++ [x] ++ [y])
    (hx : x.duplicated = false) (hy : y.duplicated = false) :
    Leaves setting [.insn operator.opcode] block rest (·.kind = .binary x operator.operator y) := by
  have hAccept : accept (.insn operator.opcode) =
      record operator.opcode >>= fun _ => applyBinary operator.operator .int := by
    cases operator <;> rfl
  refine Pushes.leaves rfl hAccept (by cases operator <;> decide) uneventful ?_
  refine Pushes.pop hStack hy (Pushes.pop rfl hx ?_)
  refine .after (yields_typeOf x _) (.after (yields_typeOf y _) ?_)
  dsimp only
  split
  · exact pushes_typed _ _
  · exact pushes_guessed _ _

theorem leaves_negate (hStack : block.stack = rest ++ [x]) (hx : x.duplicated = false) :
    Leaves setting [.insn .ineg] block rest (·.kind = .unary .negate x) :=
  Pushes.leaves rfl rfl (by decide) uneventful (.pop hStack hx (pushes_make _ _))

theorem leaves_element (hStack : block.stack = rest ++ [x] ++ [y]) (hx : x.duplicated = false)
    (hy : y.duplicated = false) : Leaves setting [.insn .iaload] block rest (·.kind = .element x y) :=
  Pushes.leaves rfl rfl (by decide) uneventful (.pop hStack hy (.pop rfl hx (.after rfl (pushes_guessed _ .int))))

theorem leaves_length (hStack : block.stack = rest ++ [x]) (hx : x.duplicated = false) :
    Leaves setting [.insn .arraylength] block rest (·.kind = .length x) :=
  Pushes.leaves rfl rfl (by decide) uneventful (.pop hStack hx (pushes_typed _ _))

theorem leaves_cast (type : String) (hStack : block.stack = rest ++ [x]) (hx : x.duplicated = false) :
    Leaves setting [.type .checkcast type] block rest (·.kind = .cast (.ofInternalName type) x) :=
  Pushes.leaves rfl rfl (by decide) uneventful (.pop hStack hx (pushes_typed _ _))

theorem leaves_instanceOf (type : String) (hStack : block.stack = rest ++ [x]) (hx : x.duplicated = false) :
    Leaves setting [.type .instanceof type] block rest (·.kind = .instanceOf x (.ofInternalName type)) :=
  Pushes.leaves rfl rfl (by decide) uneventful (.pop hStack hx (pushes_typed _ _))

/-- Whichever instruction the compiler picks for a constant, the constant is left. -/
theorem leaves_constant (value : Int32) :
    Leaves setting [.pushInt value] block block.stack (·.kind = .number (.int value)) := by
  rw [Event.pushInt]
  split
  · next hSmall =>
      obtain ⟨hConstant, hOp⟩ := constant?_pushInt hSmall.1 hSmall.2
      exact Pushes.leaves rfl (plain_of_constant? hConstant) hOp uneventful (pushes_int value)
  · split
    · exact Pushes.leaves rfl rfl (by decide) uneventful (pushes_int value)
    · split
      · exact Pushes.leaves rfl rfl (by decide) uneventful (pushes_int value)
      · exact Pushes.leaves rfl rfl (by decide) uneventful (pushes_int value)

/-- A parameter is read as the local of its slot. -/
theorem leaves_parameter {owner : String} {descriptor : MethodDescriptor} {slot : UInt16} {type : JvmType}
    (hLocals : block.locals = .ofDescriptor owner true descriptor)
    (hParameters : ∀ type ∈ descriptor.parameters, type.isIntOrReference = true)
    (hSlot : descriptor.parameters[slot.toNat]? = some type) :
    Leaves setting [.var type.loadOpcode slot] block block.stack (·.kind = .localVariable slot.toNat false) := by
  have hType : type.isIntOrReference = true := hParameters type (List.mem_of_getElem? hSlot)
  have hNarrow : ∀ type ∈ descriptor.parameters, type.isWide = false := fun type hType =>
    JvmType.isWide_of_isIntOrReference (hParameters type hType)
  obtain ⟨hLoad, hOp, hKind⟩ := JvmType.loadOpcode_of_isIntOrReference hType
  have hFind : block.locals.find? slot ((SlotKind.ofOpcode? type.loadOpcode).getD .reference) = some slot.toNat := by
    rw [hLocals, hKind]
    exact LocalVariables.find?_parameter hNarrow hSlot
  have hThis : block.locals.isThis slot = false := by
    rw [hLocals]
    rfl
  have hApplies : (type.loadOpcode == .iload &&
      (InstructionHistory.ofCodes (type.loadOpcode :: block.codes)).endsInTemplate [Opcode.iinc, Opcode.iload] &&
        (SlotHistory.ofSlots (slot :: block.touched)).repeats) = false := by
    rw [uneventful.endsInTemplate_increment, Bool.and_false, Bool.false_and]
  have hVariable := LocalVariables.variableAt_of_find? hFind block.supply
  exact ⟨_, _, _, _, .single rfl (yields_var_load hLoad hApplies hThis hVariable), rfl, rfl, uneventful.cons hOp⟩

section

variable (hSymbols : setting.symbols = .descriptors)

include hSymbols

/-- The receiver is replaced by its field. -/
theorem leaves_field {member : MemberName} (hField : member.isField = true) (hStack : block.stack = rest ++ [x])
    (hx : x.duplicated = false) :
    Leaves setting [.field .getfield member] block rest (·.kind = .field member.owner member.name (some x)) := by
  obtain ⟨type, hMember⟩ := member.ofField_of_isField hField false
  exact Pushes.leaves rfl rfl (by decide) uneventful
    (.after (yields_resolve hSymbols hMember _) (.pop hStack hx (pushes_typed _ _)))

/-- A static field needs no receiver. The flag that disables assertions is read otherwise. -/
theorem leaves_staticField {member : MemberName} (hField : member.isField = true)
    (hFlag : member.name ≠ "$assertionsDisabled") :
    Leaves setting [.field .getstatic member] block block.stack (·.kind = .field member.owner member.name none) := by
  obtain ⟨type, hMember⟩ := member.ofField_of_isField hField true
  have hAccept : accept (.field .getstatic member) = accessField .getstatic member := if_neg fun h => hFlag h.2
  exact Pushes.leaves (if_neg fun h => hFlag h.2) hAccept (by decide) uneventful
    (.after (yields_resolve hSymbols hMember _) (pushes_typed _ _))

/-- The arguments are replaced by the call. -/
theorem leaves_callStatic {member : MemberName} {operands : List Operand}
    (hFunction : member.isFunction operands.length = true) (hStack : block.stack = rest ++ operands)
    (hSingle : ∀ operand ∈ operands, operand.duplicated = false) :
    Leaves setting [.method .invokestatic member] block rest
      (·.kind = .call member.owner member.name member.descriptor none operands false) := by
  obtain ⟨descriptor, hMember, hResult, hLength, hTypes⟩ := member.ofMethod_of_isFunction hFunction true
  obtain ⟨supply, hArguments⟩ := yields_popArguments hLength.symm hTypes hSingle
    { block with codes := .invokestatic :: block.codes } hStack
  have hAccept : accept (.method .invokestatic member) = (record .invokestatic >>= fun _ => do
      let found ← resolve (·.resolveMethod member true)
      let arguments ← popArguments found.parameters
      pushResult (.call found.declaringType found.name member.descriptor none arguments false) found.valueType) := rfl
  refine Pushes.leaves rfl hAccept (by decide) uneventful (.after (yields_resolve hSymbols hMember _) ?_)
  refine .bind hArguments ?_
  exact pushes_result _ hResult

/-- The receiver and the arguments are replaced by the call. -/
theorem leaves_callVirtual {member : MemberName} {operands : List Operand}
    (hFunction : member.isFunction operands.length = true) (hStack : block.stack = rest ++ [x] ++ operands)
    (hx : x.duplicated = false) (hSingle : ∀ operand ∈ operands, operand.duplicated = false) :
    Leaves setting [.method .invokevirtual member] block rest
      (·.kind = .call member.owner member.name member.descriptor (some x) operands false) := by
  obtain ⟨descriptor, hMember, hResult, hLength, hTypes⟩ := member.ofMethod_of_isFunction hFunction false
  obtain ⟨supply, hArguments⟩ := yields_popArguments hLength.symm hTypes hSingle
    { block with codes := .invokevirtual :: block.codes } hStack
  have hAccept : accept (.method .invokevirtual member) = (record .invokevirtual >>= fun _ => do
      let found ← resolve (·.resolveMethod member false)
      let arguments ← popArguments found.parameters
      let receiver ← pop 0
      pushResult (.call found.declaringType found.name member.descriptor (some receiver) arguments false)
        found.valueType) := rfl
  refine Pushes.leaves rfl hAccept (by decide) uneventful (.after (yields_resolve hSymbols hMember _) ?_)
  refine .bind hArguments (.pop rfl hx ?_)
  exact pushes_result _ hResult

end

end

/-! ### Expressions -/

namespace Expression

variable {owner : String} {descriptor : MethodDescriptor}

/-- What the instructions of some expressions leave. -/
def LeaveAll (setting : Setting) (events : List Event) (block : Block) (expressions : List Expression) : Prop :=
  ∃ operands supply codes touched,
    Runs setting events block { block with stack := block.stack ++ operands, supply, codes, touched } ∧
      (∀ operand ∈ operands, operand.duplicated = false) ∧ List.Forall₂ Represents expressions operands ∧
        Uneventful codes

/-- What the instructions of an expression rely on: members are described by their descriptors, parameters take one
slot each and are the only locals, and no idiom is under way. -/
structure Ready (setting : Setting) (owner : String) (descriptor : MethodDescriptor) (block : Block) : Prop where
  symbols : setting.symbols = .descriptors
  parameters : ∀ type ∈ descriptor.parameters, type.isIntOrReference = true
  locals : block.locals = .ofDescriptor owner true descriptor
  uneventful : Uneventful block.codes

/-- The stack and the supply may change between two instructions. -/
theorem Ready.next {stack : List Operand} {supply : Supply} {codes : List Opcode} {touched : List UInt16}
    (ready : Ready setting owner descriptor block) (uneventful : Uneventful codes) :
    Ready setting owner descriptor { block with stack, supply, codes, touched } := { ready with uneventful }

mutual

/-- Executing the instructions of an expression leaves an operand that represents it. -/
theorem leaves_compile (expression : Expression) (hWell : expression.wellFormed descriptor.parameters = true)
    (block : Block) (ready : Ready setting owner descriptor block) :
    Leaves setting (expression.compile descriptor.parameters) block block.stack expression.Represents := by
  cases expression with
  | parameter slot =>
      have hSlot : slot.toNat < descriptor.parameters.length := by simpa [wellFormed] using hWell
      have hType : descriptor.parameters[slot.toNat]? = some (descriptor.parameters.getD slot.toNat .unknown) := by
        simp [hSlot]
      exact (leaves_parameter ready.uneventful ready.locals ready.parameters hType).imp fun _ => .parameter
  | constant value => exact (leaves_constant ready.uneventful value).imp fun _ => .constant
  | arithmetic left operator right =>
      simp only [wellFormed, Bool.and_eq_true] at hWell
      rw [compile, List.append_assoc]
      exact (leaves_compile left hWell.1 block ready).bind fun x _ _ _ hx hLeft uneventful =>
        .bind (leaves_compile right hWell.2 _ (ready.next uneventful)) fun y _ _ _ hy hRight uneventful =>
          (leaves_arithmetic uneventful operator rfl hx hy).imp fun _ hKind => .arithmetic hKind hLeft hRight
  | negate value =>
      simp only [wellFormed] at hWell
      exact (leaves_compile value hWell block ready).bind fun x _ _ _ hx hValue uneventful =>
        (leaves_negate uneventful rfl hx).imp fun _ hKind => .negate hKind hValue
  | element array index =>
      simp only [wellFormed, Bool.and_eq_true] at hWell
      rw [compile, List.append_assoc]
      exact (leaves_compile array hWell.1 block ready).bind fun x _ _ _ hx hArray uneventful =>
        .bind (leaves_compile index hWell.2 _ (ready.next uneventful)) fun y _ _ _ hy hIndex uneventful =>
          (leaves_element uneventful rfl hx hy).imp fun _ hKind => .element hKind hArray hIndex
  | length array =>
      simp only [wellFormed] at hWell
      exact (leaves_compile array hWell block ready).bind fun x _ _ _ hx hArray uneventful =>
        (leaves_length uneventful rfl hx).imp fun _ hKind => .length hKind hArray
  | field receiver member =>
      simp only [wellFormed, Bool.and_eq_true] at hWell
      exact (leaves_compile receiver hWell.1 block ready).bind fun x _ _ _ hx hReceiver uneventful =>
        (leaves_field uneventful ready.symbols hWell.2 rfl hx).imp fun _ hKind => .field hKind hReceiver
  | staticField member =>
      simp only [wellFormed, Bool.and_eq_true, bne_iff_ne] at hWell
      exact (leaves_staticField ready.uneventful ready.symbols hWell.1 hWell.2).imp fun _ => .staticField
  | cast value type =>
      simp only [wellFormed] at hWell
      exact (leaves_compile value hWell block ready).bind fun x _ _ _ hx hValue uneventful =>
        (leaves_cast uneventful type rfl hx).imp fun _ hKind => .cast hKind hValue
  | instanceOf value type =>
      simp only [wellFormed] at hWell
      exact (leaves_compile value hWell block ready).bind fun x _ _ _ hx hValue uneventful =>
        (leaves_instanceOf uneventful type rfl hx).imp fun _ hKind => .instanceOf hKind hValue
  | callStatic member arguments =>
      simp only [wellFormed, Bool.and_eq_true] at hWell
      obtain ⟨operands, _, _, _, runs, hSingle, hArguments, uneventful⟩ :=
        leaves_compileAll arguments hWell.2 block ready
      rw [hArguments.length_eq] at hWell
      exact ((leaves_callStatic uneventful ready.symbols hWell.1 rfl hSingle).imp fun _ hKind =>
        .callStatic hKind hArguments).afterRuns runs
  | callVirtual receiver member arguments =>
      simp only [wellFormed, Bool.and_eq_true] at hWell
      rw [compile, List.append_assoc]
      refine (leaves_compile receiver hWell.1.1 block ready).bind
        fun x supply codes touched hx hReceiver uneventful => ?_
      obtain ⟨operands, _, _, _, runs, hSingle, hArguments, uneventful⟩ := leaves_compileAll arguments hWell.2
        { block with stack := block.stack ++ [x], supply, codes, touched } (ready.next uneventful)
      rw [hArguments.length_eq] at hWell
      exact ((leaves_callVirtual uneventful ready.symbols hWell.1.2 rfl hx hSingle).imp fun _ hKind =>
        .callVirtual hKind hReceiver hArguments).afterRuns runs

/-- Arguments are compiled in order, each over those before it. -/
theorem leaves_compileAll (expressions : List Expression)
    (hWell : allWellFormed descriptor.parameters expressions = true) (block : Block)
    (ready : Ready setting owner descriptor block) :
    LeaveAll setting (compileAll descriptor.parameters expressions) block expressions := by
  cases expressions with
  | nil =>
      refine ⟨[], block.supply, block.codes, block.touched, ?_, nofun, .nil, ready.uneventful⟩
      rw [List.append_nil]
      exact Runs.nil block
  | cons expression rest =>
      simp only [allWellFormed, Bool.and_eq_true] at hWell
      obtain ⟨x, supply, codes, touched, runs, hx, hExpression, uneventful⟩ :=
        leaves_compile expression hWell.1 block ready
      obtain ⟨operands, supply', codes', touched', follows, hSingle, hRest, uneventful⟩ :=
        leaves_compileAll rest hWell.2 { block with stack := block.stack ++ [x], supply, codes, touched }
          (ready.next uneventful)
      refine ⟨x :: operands, supply', codes', touched', ?_, List.forall_mem_cons.mpr ⟨hx, hSingle⟩,
        .cons hExpression hRest, uneventful⟩
      rw [List.append_cons]
      exact runs.append follows

end

/-- An operand that represents an expression of the matching type is returned as it is. -/
theorem Represents.storedAs {expression : Expression} {operand : Operand} (represents : Represents expression operand)
    {parameters : List JvmType} {result : JvmType} (hReturns : (expression.type parameters).returnsAs result = true) :
    operand.StoredAs result := by
  by_cases hLiterals : result = .boolean ∨ result = .char
  · have hType : expression.type parameters = result := by
      rcases hLiterals with rfl | rfl <;> simpa [JvmType.returnsAs, JvmType.isPrimitive] using hReturns
    right
    cases represents with
    | constant => rcases hLiterals with rfl | rfl <;> cases hType
    | _ => simp_all
  · exact .inl (not_or.mp hLiterals)

/-- Decompiling undoes compiling: after the instructions of an expression and the matching return, the unit is one
node that holds one operand, the return of the same tree. -/
theorem decompile_compile {unit : CompiledUnit} {expression : Expression}
    (hSymbols : setting.symbols = .descriptors) (hStatic : unit.isStatic = true)
    (hText : MethodDescriptor.ofText? unit.descriptor = some descriptor)
    (hParameters : ∀ type ∈ descriptor.parameters, type.isIntOrReference = true)
    (hWell : expression.wellFormed descriptor.parameters = true)
    (hReturns : (expression.type descriptor.parameters).returnsAs descriptor.result = true)
    (hEvents : unit.events =
      expression.compile descriptor.parameters ++ [.insn descriptor.result.returnOpcode]) :
    ∃ body id result value, (MethodBody.ofUnit unit setting).1 = .ok body ∧ body.graph.order = [id] ∧
      (body.graph.node id).stack = [result] ∧ result.kind = .returns (some value) ∧ expression.Represents value := by
  have ready : Ready setting unit.owner descriptor (.start unit descriptor) :=
    { symbols := hSymbols, parameters := hParameters, locals := by rw [Block.start, hStatic]
      uneventful := fun op hOp => by rw [List.mem_singleton.mp hOp]; decide }
  obtain ⟨value, supply, codes, touched, runs, hSingle, hValue, uneventful⟩ :=
    leaves_compile expression hWell _ ready
  obtain ⟨hOp, hFrame⟩ := descriptor.result.returnOpcode_ne
  let computed : Block := { Block.start unit descriptor with stack := [value], supply, codes, touched }
  let returned : Block := { computed with codes := descriptor.result.returnOpcode :: codes }
  have hPop : Yields setting (pop 0) returned.execution value { returned with stack := [] }.execution :=
    yields_pop rfl hSingle
  have hFrames : ∀ op ∈ returned.codes, op.isFrame = false :=
    List.forall_mem_cons.mpr ⟨hFrame, fun op hOp => (uneventful op hOp).2⟩
  obtain ⟨id, type, supply', hReturn⟩ := yields_returnValue hOp (.inr hFrames) hPop (hValue.storedAs hReturns)
  let result : Operand := { id, type, statement := true, kind := .returns (some value) }
  let final : Block := { returned with stack := [result], destination := some .termination, supply := supply' }
  have hAccept : accept (.insn descriptor.result.returnOpcode) =
      (record descriptor.result.returnOpcode >>= fun _ => returnValue descriptor.result.returnOpcode) := by
    cases descriptor.result <;> rfl
  have runsReturn : Runs setting [.insn descriptor.result.returnOpcode] computed final := by
    refine .single rfl ?_
    rw [hAccept]
    exact Yields.bind (yields_record _) hReturn
  have hBody := MethodBody.ofUnit_eq hText (hEvents ▸ (runs.append runsReturn).ofInitial (by simp))
    (List.cons_ne_nil result []) (by simp [final, result, Operand.isCondition, Operand.condition?])
  have hLocals : ∀ entry ∈ final.locals.list, entry.parameter = true := fun _ =>
    LocalVariables.parameter_of_mem_parameterEntries
  rw [finished_of_parameters hLocals] at hBody
  exact ⟨_, 0, result, value, hBody, rfl, rfl, rfl, hValue⟩

/-- A method of an int and an array that calls with the negated constant -40000 and an element as arguments. -/
theorem decompile_compile_call :
    let expression : Expression := .arithmetic (.parameter 0) .shiftLeft
      (.callStatic ⟨"A", "f", "(I[I)I"⟩ [.negate (.constant (-40000)), .cast (.staticField ⟨"A", "g", "[I"⟩) "[I"])
    let unit : CompiledUnit := ⟨"A", "m", "(I[I)I", true, expression.compile [.int, .array .int] ++ [.insn .ireturn]⟩
    ∃ body id result value, (MethodBody.ofUnit unit {}).1 = .ok body ∧ body.graph.order = [id] ∧
      (body.graph.node id).stack = [result] ∧ result.kind = .returns (some value) ∧ expression.Represents value :=
  have hText : MethodDescriptor.ofText? "(I[I)I" = some ⟨[.int, .array .int], .int⟩ := by decide
  decompile_compile rfl rfl hText (by decide) (by decide) (by decide) rfl

end Expression

end Decompiler
