import Decompiler.Execution.Basic

/-!
Idioms that span several instructions. Compilers lower conditional expressions, increments, boolean
returns, assertions, string concatenations and switch expressions to shapes of instructions; each fold
here checks the latest instructions and the operand stack, and rewrites the stack when its shape matches.
-/

namespace Decompiler.Execution

/-! ### Conditional expressions -/

/-- The operand can be one value of a conditional expression. -/
def isBranchValue (graph : Graph) (operand : Operand) : Bool :=
  !operand.statement && graph.typeOf operand != .void &&
    match operand.kind with
    | .condition _ | .declaration _ | .returns _ | .throws _ | .yields _ | .asserts .. => false
    | _ => true

/-- Follows empty nodes with one entry and one exit. -/
def emptyChainFrom (graph : Graph) : Nat → List NodeId → NodeId → List NodeId
  | 0, chain, _ => chain
  | fuel + 1, chain, id =>
    let node := graph.node id
    match node.isEmpty, node.incoming, node.outgoing with
    | true, [_], [next] =>
      if chain.contains next then chain else emptyChainFrom graph fuel (chain ++ [next]) next
    | _, _, _ => chain

/-- The chain of empty nodes from a node on, the node it ends in included. -/
def emptyChain (graph : Graph) (start : NodeId) : List NodeId :=
  emptyChainFrom graph (graph.capacity + 1) [start] start

/-- Where the parts of a conditional expression lie: the nodes of its second and first value and of its
condition. -/
structure Branches where
  right : NodeId
  left : NodeId
  holder : NodeId

/-- The condition two entries below the top with the values above it, if they join here. The condition
jumps to the node of the upper value, its node dominates both values, and no value lies inside the
other. -/
def branches? (here : NodeId) : GraphM (Option Branches) := do
  let graph ← get
  match graph.locate? here 0, graph.locate? here 1, graph.locate? here 2 with
  | some (right, _), some (left, _), some (holder, _) =>
    match ((graph.peek? here 2).bind Operand.condition?).bind Condition.onTrue with
    | none => return none
    | some target =>
      let isValue (depth : Nat) := (graph.peek? here depth).any (isBranchValue graph)
      if right = left || !isValue 0 || !isValue 1 then return none
      let reached := (emptyChain graph target).contains right
      let dominated ← do
        if ← Graph.hasDominator left holder then Graph.hasDominator right holder else pure false
      let nested ← if holder = left then pure false else Graph.hasDominator right left
      return if reached && dominated && !nested then some { right, left, holder } else none
  | _, _, _ => return none

/-- The value of a conditional expression. `test` jumps over the first value; one and zero as the two
values are the condition itself. -/
def conditional (test first second : Operand) : SupplyM Operand := do
  if second.isConstant 1 && first.isConstant 0 then
    Operand.guessed (.zeroOrOne test) .int
  else if second.isConstant 0 && first.isConstant 1 then
    Operand.guessed (.zeroOrOne (← test.invert)) .int
  else
    modify fun supply => { supply with types := supply.types.bindMutually first.type second.type }
    let joined ← Operand.make (.ternary (← test.invert) first second) first.type
    return joined.enclose

/-- Joins the values of a two-way branch as long as they fit. Every step leaves two operands less, which
bounds their number. -/
def joinBranchesWithin : Nat → ExecutionM Unit
  | 0 => return ()
  | fuel + 1 => do
    if let some here := (← get).current then
      if let some place ← branches? here then
        let second ← take 0
        let first ← take 0
        let test ← take 0
        let joined ← conditional test first second
        changeGraph (·.push place.holder joined)
        for id in [place.right, place.left] do
          let node ← node id
          if id != here && id != place.holder && !node.disposed && node.isEmpty then
            dispose id false
        joinBranchesWithin fuel

/-- Folds a two-way branch whose sides leave a value each into a conditional expression. -/
def joinBranches : ExecutionM Unit := do
  if (← read).options.fuseTernary then
    let graph := (← get).graph
    joinBranchesWithin ((graph.order.flatMap fun id => (graph.node id).stack).length + 1)

/-! ### Switch expressions -/

/-- A node between the head of a switch and the node where its arms meet leaves a value there. -/
def yieldsValue (head : NodeId) (first last : Nat) (source : NodeId) : GraphM Bool := do
  let graph ← get
  let inside := (graph.position? source).any fun place => first < place && place < last
  if !inside || source = head then return false
  if !(← Graph.hasDominator source head) then return false
  return ((← get).node source).top?.any fun top => !top.statement && !top.isCondition

/-- Lets a node yield the value on its top; says which type that has. -/
def yieldTop (source : NodeId) : GraphM (Option TypeRef) := do
  match ((← get).node source).top? with
  | none => return none
  | some value =>
    let yielded ← Operand.guessed (.yields value) .unknown
    modify (·.mapStack source fun stack => stack.dropLast ++ [yielded.asStatement])
    return some value.type

/-- The last switch that is not an expression yet, with its place. -/
def pendingSwitch? (switches : List SwitchTable) : Option (SwitchId × SwitchTable) :=
  (switches.zipIdx.reverse.find? fun (table, _) => !table.expression).map fun (table, id) => (id, table)

/-- Turns the latest switch into an expression if the current node is empty and every node that leads to it
leaves a value. Only the nodes with an edge into the current one are asked: an arm that never comes here does
not stand in the way. -/
def joinSwitch : ExecutionM Unit := do
  let state ← get
  let graph := state.graph
  match state.current, pendingSwitch? state.switches with
  | some here, some (id, table) =>
    match graph.position? table.head, graph.position? here with
    | some first, some last =>
      let sources := (graph.node here).incoming
      if (← read).options.fuseSwitchExpressions && (graph.node here).isEmpty && first < last
          && !sources.isEmpty then
        if ← sources.allM fun source => yieldsValue table.head first last source then
          let types ← sources.filterMapM fun source => yieldTop source
          let type ← match types.head? with
            | some type => pure type
            | none => Supply.unknown
          let value ← Operand.make (.switch table.head) type
          modify fun state =>
            { state with
              graph := (state.graph.push here value).update here fun node =>
                { node with yieldConvergence := true }
              switches := state.switches.set id { table with expression := true } }
    | _, _ => return ()
  | _, _ => return ()

/-! ### Assertions -/

/-- The empty nodes right before a node, nearest first, and the node before them. -/
def emptyBefore (graph : Graph) : Nat → Option NodeId → List NodeId × Option NodeId
  | fuel + 1, some id =>
    if (graph.node id).isEmpty then
      let (between, guard) := emptyBefore graph fuel (graph.node id).previous
      (id :: between, guard)
    else ([], some id)
  | _, _ => ([], none)

/-- The arguments of the creation of an assertion error. -/
def assertionArguments? (thrown : Operand) : Option (List Operand) :=
  match thrown.kind with
  | .construct "java/lang/AssertionError" _ .new arguments => some arguments
  | _ => none

/-- Replaces the branch that throws an assertion error by an assertion of the condition that guards it;
says whether it did. -/
def foldAssertion (thrown : Operand) : ExecutionM Bool := do
  let state ← get
  let graph := state.graph
  match state.current, assertionArguments? thrown with
  | some here, some arguments =>
    if state.assertNode != some here || !(graph.node here).isEmpty then return false
    match emptyBefore graph (graph.capacity + 1) (graph.node here).previous with
    | (between, some guard) =>
      match (graph.node guard).top? with
      | some ⟨id, type, duplicated, enclosed, statement, .condition test⟩ =>
        match test.onTrue, test.onFalse with
        | some onTrue, some onFalse =>
          if onFalse != here && !between.contains onFalse then return false
          let assertion ← Operand.guessed
            (.asserts ⟨id, type, duplicated, enclosed, statement, .condition test⟩ arguments.head?) .unknown
          changeGraph fun graph =>
            (graph.mapStack guard fun stack => stack.dropLast ++ [assertion.asStatement]).setDestination
              guard (.node onTrue)
          modify fun state => { state with assertNode := none }
          dispose here true
          for id in between do
            unless (← node id).disposed do dispose id true
          modify fun state => { state with current := some guard }
          return true
        | _, _ => return false
      | _ => return false
    | (_, none) => return false
  | _, _ => return false

/-! ### Boolean returns -/

/-- A conditional jump over the return of one constant to the return of another one, as the latest
instructions; the jump may be followed by a label of its own. -/
def returnsConstants (first second : Opcode) : ExecutionM Bool := do
  let tail : List Pattern :=
    [first, Opcode.ireturn, Opcode.label, Category.frame, second, Opcode.ireturn]
  if ← endsIn (Category.compare :: tail) then return true
  endsIn (Category.compare :: Opcode.label :: Category.frame :: tail)

/-- The operand returns the given boolean, written as a boolean or as a number. -/
def returnsBoolean (value : Bool) (operand : Operand) : Bool :=
  match operand.kind with
  | .returns (some returned) =>
    returned.isConstant (if value then 1 else 0) ||
      match returned.kind with
      | .boolean found => found == value
      | _ => false
  | _ => false

/-- Lets the condition before two returns of constants be the value that is returned. -/
def foldBooleanReturn : ExecutionM Unit := do
  if (← get).descriptor.result != .boolean then return
  let direct ← returnsConstants .iconst_0 .iconst_1
  let swapped ← returnsConstants .iconst_1 .iconst_0
  if !direct && !swapped then return
  let here ← here
  let graph := (← get).graph
  match (graph.node here).previous with
  | none => return
  | some previous =>
    let returnsOther := (graph.node previous).top?.any (returnsBoolean (!direct))
    let leavesConstant := match (graph.node here).stack with
      | [value] => value.isConstant (if direct then 1 else 0)
      | _ => false
    if !returnsOther || !leavesConstant then return
    changeGraph fun graph =>
      (((graph.mapStack here List.dropLast).mapStack previous List.dropLast).connect
        previous here).setDestination previous (.node here)
    if (← node previous).isEmpty then dispose previous false
    match ← peek? 0 with
    | some test =>
      if !test.isCondition then refuse .booleanReturn
      if swapped then
        let inverted ← test.invert
        changeEntry 0 fun _ => inverted
    | none => refuse .booleanReturn

/-! ### Increments and assignments -/

/-- The direction of a step by one: upwards, downwards, or none. The stepped operand has to be accepted. -/
def step? (accept : Operand → Bool) (value : Operand) : Option Bool :=
  match value.kind with
  | .binary left operator right =>
    if right.isConstant 1 && accept left then
      match operator with
      | .add => some true
      | .subtract => some false
      | _ => none
    else none
  | _ => none

/-- The operand that a step by one changes. -/
def stepped? (value : Operand) : Option Operand :=
  match value.kind with
  | .binary left _ _ => some left
  | _ => none

/-- A target changed by one. -/
def increment (upwards after : Bool) (target : Operand) : SupplyM Operand := do
  let operator : UnaryOperator := match upwards, after with
    | true, true => .postIncrement
    | true, false => .preIncrement
    | false, true => .postDecrement
    | false, false => .preDecrement
  Operand.make (.unary operator target) target.type

/-- The latest instructions satisfy a template, or the one with subtraction for addition. -/
def endsInStep (template : List Pattern) : ExecutionM Bool := do
  if ← endsIn template then return true
  endsIn (template.map fun entry => if entry = .category .add then .category .sub else entry)

/-- Which of two templates the latest instructions satisfy: of an increment after its value was read, or of
one before. -/
def incrementOrder? (after before : List Pattern) : ExecutionM (Option Bool) := do
  if ← endsInStep after then return some true
  if ← endsInStep before then return some false
  return none

/-- Folds the increment of a long, float or double local whose value is used; says whether it did. -/
def foldLocalIncrement (op : Opcode) (slot : UInt16) : ExecutionM Bool := do
  match op, SlotKind.ofOpcode? op with
  | .lstore, some kind | .fstore, some kind | .dstore, some kind =>
    let shape : List Pattern :=
      [Category.load, Category.duplicate, Category.one, Category.add, Category.store]
    if !(← endsInStep shape) then return false
    let (id, locals) ← (← get).locals.variableAt slot kind
    modify fun state => { state with locals }
    let isLocal (operand : Operand) : Bool := operand.asLocal? == some id
    match ← peek? 1, (← peek? 0).bind (step? isLocal) with
    | some loaded, some upwards =>
      if !isLocal loaded then return false
      discard (take 0)
      let loaded ← take 0
      push (← increment upwards true loaded)
      return true
    | _, _ => return false
  | _, _ => return false

/-- Folds the increment of a field whose value is used; says whether it did. -/
def foldFieldIncrement (type : JvmType) : ExecutionM Bool := do
  let order ← incrementOrder?
    [Category.duplicate, Opcode.getfield, Category.duplicateAway, Category.one, Category.add,
      Opcode.putfield]
    [Category.duplicate, Opcode.getfield, Category.one, Category.add, Category.duplicateAway,
      Opcode.putfield]
  match order, (← peek? 0).bind (step? fun _ => true) with
  | some after, some upwards =>
    let value ← take 0
    discard (pop 0)
    match stepped? value with
    | some field =>
      field.suggest type
      push (← increment upwards after field)
      return true
    | none => return false
  | _, _ => return false

/-- Folds the increment of a static field whose value is used; says whether it did. -/
def foldStaticIncrement (field : Operand) : ExecutionM Bool := do
  let order ← incrementOrder?
    [Opcode.getstatic, Category.duplicate, Category.one, Category.add, Opcode.putstatic]
    [Opcode.getstatic, Category.one, Category.add, Category.duplicate, Opcode.putstatic]
  match order, (← peek? 0).bind (step? (·.equivalent field)) with
  | some after, some upwards =>
    discard (take 0)
    if after then discard (take 0)
    push (← increment upwards after field)
    return true
  | _, _ => return false

/-- Folds the increment of an array element whose value is used; says whether it did. -/
def foldElementIncrement : ExecutionM Bool := do
  let order ← incrementOrder?
    [Opcode.dup2, Category.arrayLoad, Opcode.dup_x2, Category.one, Category.add, Category.arrayStore]
    [Opcode.dup2, Category.arrayLoad, Category.one, Category.add, Opcode.dup_x2, Category.arrayStore]
  match order, (← peek? 0).bind (step? fun _ => true) with
  | some after, some upwards =>
    let value ← take 0
    if after then discard (take 0)
    discard (pop 0)
    discard (pop 0)
    match stepped? value with
    | some element =>
      push (← increment upwards after element)
      return true
    | none => return false
  | _, _ => return false

/-- A value of the type is a number. -/
def isNumeric : JvmType → Bool
  | .reference _ | .array _ | .boolean => false
  | _ => true

/-- The operator and the right side of a value that computes with its own target. -/
def compound? (target value : Operand) : Option (BinaryOperator × AssignOperator × Operand) :=
  match value.kind with
  | .binary left operator right => do
    guard (left.equivalent target)
    return (operator, ← AssignOperator.ofBinary? operator, right)
  | _ => none

/-- The assignment of a value to a target. A value that computes with the target makes a compound
assignment, and a step by one makes an increment; the value of an assignment that is used is the one
after it. -/
def assignment (target value : Operand) (asValue : Bool) : ExecutionM Operand := do
  let found := if (← read).options.fuseIncrements then compound? target value else none
  match found with
  | none => Operand.make (.assign target .assign value) target.type
  | some (operator, joined, right) =>
    let numeric := isNumeric (← typeOf target)
    let direction := match operator with
      | .add => some true
      | .subtract => some false
      | _ => none
    match direction with
    | some upwards =>
      if numeric && right.isConstant 1 then increment upwards (!asValue) target
      else Operand.make (.assign target joined right) target.type
    | none => Operand.make (.assign target joined right) target.type

/-! ### String concatenations -/

/-- The parts that a recipe joins. The first mark character stands for the next argument; a constant that
the second one stands for is not known. -/
def recipeParts (literal : List Char) : List Char → List Operand → SupplyM (List Operand)
  | [], _ => text
  | '\x01' :: rest, arguments => do
    return (← text) ++ arguments.head?.toList ++ (← recipeParts [] rest arguments.tail)
  | '\x02' :: rest, arguments => recipeParts literal rest arguments
  | c :: rest, arguments => recipeParts (literal ++ [c]) rest arguments
where
  text : SupplyM (List Operand) :=
    if literal.isEmpty then return [] else return [← Operand.string (String.ofList literal)]

/-- The concatenation of arguments by a recipe, or of all of them without one. An empty string comes first
unless one of the first two parts is a string. -/
def concatenation (arguments : List Operand) (recipe : Option String) : GraphM Operand := do
  let parts ← match recipe with
    | some recipe => recipeParts [] recipe.toList arguments
    | none => pure arguments
  let graph ← get
  let parts ←
    if (parts.take 2).any fun part => graph.typeOf part == .string then pure parts
    else do pure ((← Operand.string "") :: parts)
  match parts with
  | [] => Operand.string ""
  | first :: rest =>
    rest.foldlM (fun left right => Operand.typed (.binary left .add right) .string) first

end Decompiler.Execution
