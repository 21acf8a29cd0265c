import Decompiler.Event.Basic
import Decompiler.Execution.Idiom

/-!
What each event does to an execution: labels open nodes, jumps add edges and leave conditions, and other
instructions change the operand stack.
-/

namespace Decompiler.Execution

/-! ### Labels, frames and debug information -/

/-- Lets control fall from the current node into another one, unless it has a destination. -/
def fallInto (next : NodeId) : ExecutionM Unit := do
  let state ← get
  if let some current := state.current then
    if (state.graph.node current).destination.isNone then
      changeGraph fun graph => (graph.connect current next).setDestination current (.node next)

/-- Gives the node of a label its place and makes it current. -/
def openLabel (id : Label) : ExecutionM NodeId := do
  modify fun state => { state with history := state.history.record .label }
  let next ← GraphM.create (·.nodeOfLabel id)
  if (← get).graph.isPlaced next then refuse (.repeatedLabel id)
  fallInto next
  modify fun state => { state with graph := state.graph.append next, current := some next }
  return next

/-- A label opens its node, and the conditions before it are folded. -/
def label (id : Label) : ExecutionM Unit := do
  let next ← openLabel id
  mergeBefore next
  recordNode .label next

/-- A frame marks a place where branches join, so values left by them may be joined there. -/
def frame (kind : FrameKind) (locals stack : UInt16) : ExecutionM Unit := do
  record kind.opcode
  match kind with
  | .full =>
    joinBranches
    if stack > 0 then joinSwitch
  | .same =>
    if locals = 0 ∧ stack = 0 then
      joinBranches
      mergeBefore (← here)
  | .same1 =>
    if stack = 1 then
      joinBranches
      joinSwitch
  | .new | .append | .chop => return ()

def lineNumber (line : UInt32) (label : Label) : ExecutionM Unit := do
  let id ← GraphM.create (·.nodeOfLabel label)
  changeGraph (·.update id fun node => { node with line := some line })

def localName (slot : UInt16) (name descriptor : String) : ExecutionM Unit := do
  let locals ← (← get).locals.rename slot name descriptor
  modify fun state => { state with locals }

/-! ### Plain instructions -/

/-- The binary operator of an arithmetic instruction with the type of its result. -/
def arithmetic? : Opcode → Option (BinaryOperator × JvmType)
  | .iadd => some (.add, .int)
  | .ladd => some (.add, .long)
  | .fadd => some (.add, .float)
  | .dadd => some (.add, .double)
  | .isub => some (.subtract, .int)
  | .lsub => some (.subtract, .long)
  | .fsub => some (.subtract, .float)
  | .dsub => some (.subtract, .double)
  | .imul => some (.multiply, .int)
  | .lmul => some (.multiply, .long)
  | .fmul => some (.multiply, .float)
  | .dmul => some (.multiply, .double)
  | .idiv => some (.divide, .int)
  | .ldiv => some (.divide, .long)
  | .fdiv => some (.divide, .float)
  | .ddiv => some (.divide, .double)
  | .irem => some (.remainder, .int)
  | .lrem => some (.remainder, .long)
  | .frem => some (.remainder, .float)
  | .drem => some (.remainder, .double)
  | .ishl => some (.shiftLeft, .int)
  | .lshl => some (.shiftLeft, .long)
  | .ishr => some (.shiftRight, .int)
  | .lshr => some (.shiftRight, .long)
  | .iushr => some (.unsignedShiftRight, .int)
  | .lushr => some (.unsignedShiftRight, .long)
  | .iand => some (.bitAnd, .int)
  | .land => some (.bitAnd, .long)
  | .ior => some (.bitOr, .int)
  | .lor => some (.bitOr, .long)
  | .ixor => some (.bitXor, .int)
  | .lxor => some (.bitXor, .long)
  | _ => none

/-- The constant that an instruction pushes. -/
def constant? : Opcode → Option Number
  | .iconst_m1 => some (.int (-1))
  | .iconst_0 => some (.int 0)
  | .iconst_1 => some (.int 1)
  | .iconst_2 => some (.int 2)
  | .iconst_3 => some (.int 3)
  | .iconst_4 => some (.int 4)
  | .iconst_5 => some (.int 5)
  | .lconst_0 => some (.long 0)
  | .lconst_1 => some (.long 1)
  | .fconst_0 => some (.float 0)
  | .fconst_1 => some (.float 1)
  | .fconst_2 => some (.float 2)
  | .dconst_0 => some (.double 0)
  | .dconst_1 => some (.double 1)
  | _ => none

/-- The type of a conversion that source code leaves out. -/
def widening? : Opcode → Option JvmType
  | .i2l => some .long
  | .i2f | .l2f => some .float
  | .i2d | .l2d | .f2d => some .double
  | _ => none

/-- The type of a conversion that is written as a cast. -/
def narrowing? : Opcode → Option JvmType
  | .l2i | .f2i | .d2i => some .int
  | .f2l | .d2l => some .long
  | .d2f => some .float
  | .i2b => some .byte
  | .i2c => some .char
  | .i2s => some .short
  | _ => none

/-- The type of the element that an instruction reads, where the instruction tells it. -/
def elementType? : Opcode → Option JvmType
  | .iaload => some .int
  | .laload => some .long
  | .faload => some .float
  | .daload => some .double
  | .caload => some .char
  | .saload => some .short
  | _ => none

/-- The type of the elements of an array operand, as far as it is known. -/
def elementTypeOf (array : Operand) : ExecutionM JvmType :=
  return (← typeOf array).element?.getD .unknown

/-- Marks the entry at a depth as duplicated; says whether there is one. -/
def markDuplicated (depth : Nat) : ExecutionM Bool := do
  discard here
  let found ← peek? depth
  changeEntry depth fun operand => { operand with duplicated := true }
  return found.isSome

/-- Copies the top entry, and the one below if the instruction copies two that take one slot each. A new
object is copied for its constructor only and stays one entry. -/
def duplicate (op : Opcode) : ExecutionM Unit := do
  if ← endsIn [Opcode.new, Category.duplicate] then return
  if !(← markDuplicated 0) then refuse .emptyDuplicate
  if op = .dup2 then
    let wide ← match ← peek? 0 with
      | some top => do pure (← typeOf top).isWide
      | none => pure false
    unless wide do discard (markDuplicated 1)

/-- Drops the top entry, which stays as a statement. A handler may drop the exception that it never stores,
and the call of a null check that the compiler inserted is dropped altogether. -/
def popStatement : ExecutionM Unit := do
  let here ← here
  let top ← peek? 0
  if top.isNone && (← get).regions.isHandler here then return
  let checks := match top with
    | some { kind := .call _ name _ _ _ _, .. } => name == "getClass" || name == "requireNonNull"
    | _ => false
  let inserted := (← endsIn [Category.duplicate, Category.invoke, Opcode.pop]) && checks
  let value ← pop 0
  unless inserted do pushStatement value

def applyBinary (operator : BinaryOperator) (type : JvmType) : ExecutionM Unit := do
  let right ← pop 0
  let left ← pop 0
  let bitwise := operator == .bitAnd || operator == .bitOr || operator == .bitXor
  let booleans := (← typeOf left) == .boolean && (← typeOf right) == .boolean
  let kind : OperandKind := .binary left operator right
  if bitwise && booleans then push (← Operand.typed kind .boolean)
  else push (← Operand.guessed kind type)

/-- Pushes a value converted by a cast. An int constant becomes a character constant. -/
def pushCast (value : Operand) (type : JvmType) : ExecutionM Unit := do
  let character := match value.kind, type with
    | .number (.int code), .char => charOfCode? code
    | _, _ => none
  match character with
  | some character => push (← Operand.typed (.character character) .char)
  | none => push (← Operand.typed (.cast type value) type)

/-- Pushes a value of a type that source code widens it to by itself. -/
def pushWidened (value : Operand) (type : JvmType) : ExecutionM Unit :=
  let kind := match value.kind with
    | .number number => OperandKind.number (number.widen type)
    | kind => kind
  push { value with kind, type := .known type }

def loadElement (op : Opcode) : ExecutionM Unit := do
  let index ← pop 0
  let array ← pop 0
  let type ← match elementType? op with
    | some type => pure type
    | none => elementTypeOf array
  push (← Operand.guessed (.element array index) type)

/-- The array, with one more element in its initializer, if the value belongs there: the array is the copy
of a new one of constant length, and the index is the number of elements so far. -/
def initialized? (array index value : Operand) : Option Operand :=
  match array.kind, index.kind with
  | .newArray element [⟨id, type, duplicated, enclosed, statement, .number (.int length)⟩] initializers,
      .number (.int position) =>
    let filled := initializers.getD []
    if array.duplicated && position < length && filled.length == position.toInt then
      some { array with
        kind := .newArray element [⟨id, type, duplicated, enclosed, statement, .number (.int length)⟩]
          (some (filled ++ [value]))
        duplicated := false }
    else none
  | _, _ => none

/-- Leaves an assignment. The value of one that is used is an operand in parentheses. -/
def pushAssignment (assignment : Operand) (asValue : Bool) : ExecutionM Unit :=
  if asValue then push assignment.enclose else pushStatement assignment

/-- Assigns a value to a target; the assignment may be used as a value itself. -/
def assign (target value : Operand) (asValue : Bool) : ExecutionM Unit := do
  pushAssignment (← assignment target value asValue) asValue

def storeElement (op : Opcode) : ExecutionM Unit := do
  if ← foldElementIncrement then return
  let value ← take 0
  let value ← match op with
    | .castore => value.coerce .char
    | .bastore =>
      match ← peek? 1 with
      | some array => do
        if (← elementTypeOf array) = .boolean then value.coerce .boolean else pure value
      | none => pure value
    | _ => pure value
  let index ← pop 0
  let array? ← do
    discard here
    peek? 0
  match array?.bind (initialized? · index value) with
  | some array => changeEntry 0 fun _ => array
  | none =>
    let array ← pop 0
    let target ← Operand.guessed (.element array index) (← elementTypeOf array)
    assign target { value with duplicated := false } value.duplicated

def returnValue (op : Opcode) : ExecutionM Unit := do
  let start ← here
  if op = .vreturn then
    pushStatement (← Operand.typed (.returns none) .void)
  else
    if op = .ireturn then foldBooleanReturn
    let type := (← get).descriptor.result
    let value ← (← pop 0).coerce type
    pushStatement (← Operand.typed (.returns (some value)) type)
  let here := (← get).current.getD start
  changeGraph (·.setDestination here .termination)

def throwValue : ExecutionM Unit := do
  let value ← pop 0
  unless ← foldAssertion value do
    pushStatement (← Operand.guessed (.throws value) .unknown)
    let here ← here
    changeGraph (·.setDestination here .termination)

/-- An instruction without operands. -/
def plain (op : Opcode) : ExecutionM Unit := do
  record op
  match constant? op, arithmetic? op, widening? op, narrowing? op with
  | some number, _, _, _ => push (← Operand.number number)
  | _, some (operator, type), _, _ => applyBinary operator type
  | _, _, some type, _ => pushWidened (← take 0) type
  | _, _, _, some type => pushCast (← pop 0) type
  | none, none, none, none =>
    match op with
    | .nop => return ()
    | .aconst_null => push (← Operand.null)
    | .dup | .dup2 => duplicate op
    -- The copy below the top matters to increments only.
    | .dup_x1 | .dup2_x1 => return ()
    | .dup_x2 | .dup2_x2 => if !(← markDuplicated 0) then refuse .emptyDuplicateBelow
    | .swap =>
      let top ← take 0
      let below ← take 0
      push top
      push below
    | .pop | .pop2 => popStatement
    | .ineg | .lneg | .fneg | .dneg =>
      let value ← pop 0
      push (← Operand.make (.unary .negate value) value.type)
    -- The conditional jump that follows compares the two values.
    | .lcmp | .fcmpl | .fcmpg | .dcmpl | .dcmpg => return ()
    | .arraylength =>
      let array ← pop 0
      push (← Operand.typed (.length array) .int)
    | .athrow => throwValue
    -- The lock of a synchronized block is dropped.
    | .monitorenter | .monitorexit => discard (pop 0)
    | op =>
      if op.isArrayLoad then loadElement op
      else if op.isArrayStore then storeElement op
      else if op.isReturn then returnValue op
      else refuse (.instruction op)

/-! ### Instructions with operands -/

def newArray (element : JvmType) (size : Operand) : SupplyM Operand :=
  Operand.typed (.newArray element [size] none) (.array element)

def int (op : Opcode) (operand : Int32) : ExecutionM Unit := do
  record op
  match op with
  | .bipush | .sipush => push (← Operand.int operand)
  | .newarray =>
    let element := JvmType.ofArrayCode operand.toInt
    if element = .unknown then refuse (.arrayCode operand)
    let size ← pop 0
    push (← newArray element size)
  | op => refuse (.intOperand op)

def constant (value : Constant) : ExecutionM Unit := do
  record .ldc
  match value with
  | .int value => push (← Operand.int value)
  | .long value => push (← Operand.number (.long value))
  | .float value => push (← Operand.number (.float value))
  | .double value => push (← Operand.number (.double value))
  | .string value => push (← Operand.string value)
  | .type name =>
    push (← Operand.typed (.classLiteral (.ofInternalName name)) (.reference "java/lang/Class"))

/-- Runs a step of the table of locals. -/
def withVariables {α : Type} (step : LocalVariables → SupplyM (α × LocalVariables)) : ExecutionM α := do
  let (result, locals) ← step (← get).locals
  modify fun state => { state with locals }
  return result

/-- The increment of a local that was just left as a statement becomes the value that is loaded. -/
def reuseIncrement (op : Opcode) (slot : UInt16) : ExecutionM Bool := do
  let applies := op == .iload && (← endsIn [Opcode.iinc, Opcode.iload]) && (← get).slots.repeats
  if !applies then return false
  let id ← withVariables (·.variableAt slot .int)
  discard here
  match ← peek? 0 with
  | some top =>
    if top.statement && top.references id then
      let assigns := match top.kind with
        | .assign .. => true
        | _ => false
      changeEntry 0 fun top => { top with statement := false, enclosed := assigns }
      return true
    else return false
  | none => return false

def loadLocal (op : Opcode) (slot : UInt16) : ExecutionM Unit := do
  unless ← reuseIncrement op slot do
    push (← withVariables (·.load slot op))

/-- A handler begins by storing the exception that it catches. -/
def storeCaught (handler : NodeId) (slot : UInt16) : ExecutionM Unit := do
  let id ← withVariables (·.variableAt slot .reference)
  let state ← get
  let exception := ((state.regions.handlerAt? handler).bind Handler.exception).getD "java/lang/Throwable"
  let type := (state.locals.get id).type
  modify fun state =>
    { state with
      graph.supply.types := state.graph.supply.types.suggest type (.reference exception)
      regions := (state.regions.bindVariable handler id).2 }

def storeLocal (op : Opcode) (slot : UInt16) : ExecutionM Unit := do
  let here ← here
  if op == .astore && (← peek? 0).isNone && (← get).regions.isHandler here then storeCaught here slot
  else if !(← foldLocalIncrement op slot) then
    let value ← take 0
    let target ← withVariables (·.store slot op value)
    let stored ← Operand.coerce { value with duplicated := false } (← typeOf target)
    assign target stored value.duplicated

def var (op : Opcode) (slot : UInt16) : ExecutionM Unit := do
  record op
  modify fun state => { state with slots := state.slots.record slot }
  if op.isLoad then loadLocal op slot
  else if op.isStore then storeLocal op slot
  else refuse (.notLocal op)

/-- Changes a local by an amount: after its use as the value on top of the stack, or as a statement of its own. -/
def changeLocal (target : Operand) (amount : Int32) (after : Bool) : ExecutionM Unit := do
  match UnaryOperator.ofStep? amount.toInt after with
  | some operator =>
    if after then
      let loaded ← pop 0
      push (← Operand.make (.unary operator loaded) target.type)
    else pushStatement (← Operand.make (.unary operator target) target.type)
  | none =>
    let (operator, value) : AssignOperator × Int32 :=
      if amount < 0 then (.subtract, -amount) else (.add, amount)
    pushStatement (← Operand.make (.assign target operator (← Operand.int value)) target.type)

/-- An increment of an int local. One that follows the load of the local changes it after its use. -/
def iinc (slot : UInt16) (amount : Int32) : ExecutionM Unit := do
  record .iinc
  modify fun state => { state with slots := state.slots.record slot }
  let id ← withVariables (·.variableAt slot .int)
  let target ← Operand.ofVariable id ((← get).locals.get id).type
  let loaded := (← peek? 0).any fun top => top.asLocal? == some id && !top.statement
  let after := (← endsIn [Opcode.iload, Opcode.iinc]) && (← get).slots.repeats && loaded
  changeLocal target amount after

/-- Runs a resolution of symbols. -/
def resolve {α : Type} (step : Symbols → Except Error α) : ExecutionM α := do
  match step (← read).symbols with
  | .ok result => return result
  | .error error => throw error

def accessField (op : Opcode) (name : MemberName) : ExecutionM Unit := do
  record op
  let isStatic := op == .getstatic || op == .putstatic
  let member ← resolve (·.resolveField name isStatic)
  let field (receiver : Option Operand) : SupplyM Operand :=
    Operand.typed (.field member.declaringType member.name receiver) member.valueType
  match op with
  | .getstatic => push (← field none)
  | .getfield =>
    let receiver ← pop 0
    push (← field (some receiver))
  | .putfield =>
    unless ← foldFieldIncrement member.valueType do
      let value ← take 0
      let receiver ← pop 0
      let chained := value.duplicated || (← endsIn [Category.duplicateAway, Opcode.putfield])
      let stored ← Operand.coerce { value with duplicated := false } member.valueType
      assign (← field (some receiver)) stored chained
  | .putstatic =>
    unless ← foldStaticIncrement (← field none) do
      let value ← take 0
      let stored ← Operand.coerce { value with duplicated := false } member.valueType
      assign (← field none) stored value.duplicated
  | op => refuse (.notField op)

/-- The read of the flag that disables assertions announces an assertion; other accesses are fields. -/
def field (op : Opcode) (name : MemberName) : ExecutionM Unit :=
  if op = .getstatic ∧ name.name = "$assertionsDisabled" then
    modify fun state => { state with assertJump := true, assertNew := true }
  else accessField op name

/-- The call of a constructor, on a new object or on `this` inside a constructor. The call that every
constructor makes of the root class is left out. -/
def construct (name : MemberName) (arguments : List Operand) : ExecutionM Unit := do
  let receiver ← pop 0
  let state ← get
  match receiver.kind with
  | .uninitialized created =>
    push (← Operand.typed (.construct created name.descriptor .new arguments) (.reference created))
  | .this =>
    if !state.isConstructor then refuse (.constructed name.owner)
    if name.owner = "java/lang/Object" && arguments.isEmpty then return
    let kind : ConstructorKind := if name.owner = state.owner then .this else .super
    pushStatement (← Operand.typed (.construct name.owner name.descriptor kind arguments) .void)
  | _ => refuse (.constructed name.owner)

def method (op : Opcode) (name : MemberName) : ExecutionM Unit := do
  record op
  let member ← resolve (·.resolveMethod name (op == .invokestatic))
  let arguments ← popArguments member.parameters
  let call (receiver : Option Operand) (special : Bool) : ExecutionM Unit := do
    let kind : OperandKind :=
      .call member.declaringType member.name name.descriptor receiver arguments special
    let result ← Operand.typed kind member.valueType
    if member.valueType = .void then pushStatement result else push result
  match op with
  | .invokestatic => call none false
  | .invokevirtual | .invokeinterface => call (some (← pop 0)) false
  | .invokespecial =>
    if name.name = "<init>" then construct name arguments
    else
      let receiver ← pop 0
      let onThis := match receiver.kind with
        | .this => true
        | _ => false
      call (some receiver) (onThis && name.owner != (← get).owner)
  | op => refuse (.notMethod op)

/-- A lambda, or a reference to a method that is no body of a lambda. -/
def functionOperand (implementation : MemberName) (type : JvmType) (captures : List Operand) :
    SupplyM Operand :=
  let interface := match type with
    | .reference name => name
    | other => other.sourceName
  if "lambda$".isPrefixOf implementation.name then
    Operand.typed
      (.lambda implementation.owner implementation.name implementation.descriptor interface captures) type
  else
    let name := if implementation.name = "<init>" then "new" else implementation.name
    Operand.typed (.methodReference implementation.owner name captures.head?) type

def invokeDynamic (name descriptor : String) (bootstrap : MemberName)
    (implementation : Option MemberName) (recipe : Option String) : ExecutionM Unit := do
  record .invokedynamic
  match MethodDescriptor.ofText? descriptor with
  | none => throw (.parse (.dynamicDescriptor descriptor))
  | some method =>
    let captures ← popArguments method.parameters
    match bootstrap.owner, implementation with
    | "java/lang/invoke/StringConcatFactory", _ => push (← concatenation captures recipe)
    | "java/lang/invoke/LambdaMetafactory", some implementation =>
      push (← functionOperand implementation method.result captures)
    | owner, _ => refuse (.bootstrap name owner)

/-- Makes a node for the error of an assertion; yields the node that guards it. -/
def insertAssertion : ExecutionM NodeId := do
  let guard ← here
  let created ← GraphM.create (·.insertAfter guard)
  changeGraph fun graph => (graph.connect guard created).setDestination guard (.node created)
  modify fun state => { state with current := some created, assertNode := some created }
  return guard

/-- The error of an assertion is created in a node of its own, so that the conditions before it fold. -/
def openAssertion : ExecutionM Unit := do
  merge (← insertAssertion)

def type (op : Opcode) (descriptor : String) : ExecutionM Unit := do
  record op
  let type := JvmType.ofInternalName descriptor
  match op with
  | .new =>
    if (← get).assertNew then
      modify fun state => { state with assertNew := false }
      openAssertion
    push (← Operand.typed (.uninitialized descriptor) type)
  | .anewarray =>
    let size ← pop 0
    push (← newArray type size)
  | .checkcast =>
    let value ← pop 0
    push (← Operand.typed (.cast type value) type)
  | .instanceof =>
    let value ← pop 0
    push (← Operand.typed (.instanceOf value type) .boolean)
  | op => refuse (.typeOperand op)

/-- The type of the elements of an array of several dimensions. -/
def innerType : Nat → JvmType → JvmType
  | count + 1, .array element => innerType count element
  | _, type => type

def multiNewArray (descriptor : String) (dimensions : UInt8) : ExecutionM Unit := do
  record .multianewarray
  match JvmType.ofDescriptor? descriptor with
  | none => throw (.parse (.arrayDescriptor descriptor))
  | some type =>
    let sizes ← (List.range dimensions.toNat).mapM fun _ => pop 0
    push (← Operand.typed (.newArray (innerType dimensions.toNat type) sizes.reverse none) type)

/-! ### Control -/

/-- The comparison under which a conditional jump is taken. -/
def comparison : Opcode → ConditionOperator
  | .ifeq | .if_icmpeq | .if_acmpeq | .ifnull => .eq
  | .ifne | .if_icmpne | .if_acmpne | .ifnonnull => .ne
  | .iflt | .if_icmplt => .lt
  | .ifge | .if_icmpge => .ge
  | .ifgt | .if_icmpgt => .gt
  | _ => .le

/-- The jump compares two values: by itself, or through the comparing instruction before it. -/
def comparesTwo (op : Opcode) : ExecutionM Bool := do
  let history := (← get).history
  return op.isBinaryJump || history.precededBy [Category.longCompare]
    || history.precededBy [Category.floatCompare] || history.precededBy [Category.doubleCompare]

/-- The constant that a jump compares one value with. -/
def comparand (op : Opcode) (value : Operand) : ExecutionM Operand := do
  if op = .ifnull ∨ op = .ifnonnull then Operand.null
  else if (← typeOf value) = .boolean then Operand.boolean false
  else Operand.int 0

def branch (op : Opcode) (label : Label) : ExecutionM Unit := do
  record op
  let target ← GraphM.create (·.nodeOfLabel label)
  let here ← here
  if op = .goto then
    changeGraph fun graph =>
      ((graph.update here fun node => { node with disposable := false }).connect here
        target).setDestination here (.node target)
  else if !op.isConditionalJump then refuse (.jump op)
  else
    let last ← pop 0
    let (left, right) ←
      if ← comparesTwo op then pure (← pop 0, last) else pure (last, ← comparand op last)
    push (← Operand.ofCondition (← Condition.compare left (comparison op) right target))
    changeGraph (·.connect here target)

/-- A jump; the one that skips a disabled assertion is left out. -/
def jump (op : Opcode) (label : Label) : ExecutionM Unit := do
  if (← get).assertJump then modify fun state => { state with assertJump := false }
  else branch op label

def switch (default : Label) (keys : List Int32) (targets : List Label) : ExecutionM Unit := do
  record .tableswitch
  if keys.length ≠ targets.length then refuse .switchLengths
  let selector ← take 0
  let head ← here
  push selector
  let default ← GraphM.create (·.nodeOfLabel default)
  let targets ← targets.mapM fun label => GraphM.create (·.nodeOfLabel label)
  for target in targets ++ [default] do
    changeGraph fun graph =>
      (graph.connect head target).update target fun node => { node with disposable := false }
  modify fun state =>
    { state with
      graph := (state.graph.setDestination head (.node default)).update head fun node =>
        { node with disposable := false, switch := some state.switches.length }
      switches := state.switches ++ [{ head, default, keys, targets }] }

def tryCatch (start stop handler : Label) (exception : Option String) : ExecutionM Unit := do
  let start ← GraphM.create (·.nodeOfLabel start)
  let stop ← GraphM.create (·.nodeOfLabel stop)
  let handler ← GraphM.create (·.nodeOfLabel handler)
  modify fun state =>
    let (regions, graph) := state.regions.add state.graph start stop handler exception
    { state with regions, graph }

/-- Executes one event. -/
def accept : Event → ExecutionM Unit
  | .label id => label id
  | .insn op => plain op
  | .int op operand => int op operand
  | .ldc value => constant value
  | .var op slot => var op slot
  | .iinc slot amount => iinc slot amount
  | .field op name => field op name
  | .method op name => method op name
  | .invokeDynamic name descriptor bootstrap implementation recipe =>
    invokeDynamic name descriptor bootstrap implementation recipe
  | .type op descriptor => type op descriptor
  | .multiNewArray descriptor dimensions => multiNewArray descriptor dimensions
  | .jump op target => jump op target
  | .switch default keys targets => switch default keys targets
  | .tryCatch start stop handler exception => tryCatch start stop handler exception
  | .lineNumber line label => lineNumber line label
  | .localVariable slot name descriptor => localName slot name descriptor
  | .frame kind locals stack => frame kind locals stack

end Decompiler.Execution
