import Decompiler.Structure.Loop

/-!
Loops over the elements of an iterable or an array. Compilers write the first as a loop over an iterator,

    it = e.iterator();  while (it.hasNext()) { x = (T) it.next(); ... }

and the second as a loop over an index,

    a = e; n = a.length; i = 0;  while (i < n) { x = a[i]; ...; i++; }

If the made-up locals occur nowhere else, their statements are dropped and the loop is one over elements.
-/

namespace Decompiler

/-- A loop over elements. -/
structure Iteration where
  /-- The local that each element is assigned to, as its declaration. -/
  element : Operand
  iterable : Operand
  /-- How many statements before the header set the iteration up. -/
  setup : Nat
  /-- The iteration steps an index at the end of the loop. -/
  indexed : Bool

namespace Iteration

/-- The local and the value of a plain assignment. -/
def assignment? (operand : Operand) : Option (VariableId × Operand) :=
  match operand.kind with
  | .assign target .assign value => do
    guard operand.statement
    return (← target.asLocal?, value)
  | _ => none

/-- The call of a method without arguments on a local. -/
def isCallOn (name : String) (receiver : VariableId) (operand : Operand) : Bool :=
  match operand.kind with
  | .call _ called _ (some target) [] _ => called == name && target.asLocal? == some receiver
  | _ => false

/-- The element of an array local at an index local. -/
def isElementOf (array index : VariableId) (operand : Operand) : Bool :=
  match operand.kind with
  | .element accessed position => accessed.asLocal? == some array && position.asLocal? == some index
  | _ => false

/-- The declaration of the local that the first statement of the body assigns an element to; the element
may be cast. -/
def elementOf? (isElement : Operand → Bool) (first : Operand) : Option Operand :=
  match first.kind with
  | .assign target .assign value =>
    let element := match value.kind with
      | .cast _ inner => inner
      | _ => value
    match target.kind with
    | .localVariable id _ =>
      if first.statement && isElement element then
        some { target.asValue with kind := .localVariable id true }
      else none
    | _ => none
  | _ => none

/-- How many operands of live nodes refer to a local. -/
def uses (graph : Graph) (id : VariableId) : Nat :=
  (graph.order.flatMap fun node => (graph.node node).stack).countP (·.references id)

/-- The statement steps an index upwards, or downwards by the operator of a step. -/
def stepsIndex (index : VariableId) (operand : Operand) : Bool :=
  match operand.kind with
  | .unary operator value => operator.isIncrement && value.asLocal? == some index
  | .assign target .add value => target.asLocal? == some index && value.isConstant 1
  | _ => false

/-- The iteration over an iterable, if the loop is one. -/
def overIterator? (graph : Graph) (symbols : Symbols) (header body previous : NodeId) :
    Option Iteration := do
  let test ← (← (graph.node header).top?).condition?
  guard !test.isCompound
  match test.left.kind with
  | .call _ "hasNext" _ (some receiver) [] _ =>
    let iterator ← receiver.asLocal?
    let (assigned, value) ← assignment? (← (graph.node previous).top?)
    guard (assigned == iterator)
    match value.kind with
    | .call owner "iterator" _ (some iterable) [] _ =>
      guard (symbols.isIterable owner)
      let element ← elementOf? (isCallOn "next" iterator) (← (graph.node body).stack.head?)
      guard (uses graph iterator == 3)
      return { element, iterable, setup := 1, indexed := false }
    | _ => none
  | _ => none

/-- The length of an array local. -/
def isLengthOf (array : VariableId) (operand : Operand) : Bool :=
  match operand.kind with
  | .length value => value.asLocal? == some array
  | _ => false

/-- The iteration over an array, if the loop is one. -/
def overArray? (graph : Graph) (header body previous source : NodeId) : Option Iteration := do
  let test ← (← (graph.node header).top?).condition?
  let operator := if test.onTrue = some body then test.operator else test.operator.negate
  guard (operator = .lt)
  let index ← test.left.asLocal?
  let length ← test.right.asLocal?
  match (graph.node previous).stack.reverse with
  | indexStore :: lengthStore :: arrayStore :: _ =>
    let (array, iterable) ← assignment? arrayStore
    let (lengthStored, measured) ← assignment? lengthStore
    let (indexStored, start) ← assignment? indexStore
    guard (lengthStored == length && indexStored == index)
    guard (isLengthOf array measured && start.isConstant 0)
    let element ← elementOf? (isElementOf array index) (← (graph.node body).stack.head?)
    guard ((graph.node source).top?.any (stepsIndex index))
    guard (uses graph array == 3 && uses graph length == 2 && uses graph index == 4)
    return { element, iterable, setup := 3, indexed := true }
  | _ => none

end Iteration

namespace Folding

/-- Folds a loop over elements, if the loop is one. -/
def forEach? (fold : NodeId → FoldingM StructureId) (header body exit source : NodeId) :
    FoldingM (Option StructureId) := do
  if !(← read).options.fuseEnhancedFor then return none
  let graph ← currentGraph
  match graph.forwardIncoming header with
  | [previous] =>
    match Iteration.overIterator? graph (← read).symbols header body previous
        <|> Iteration.overArray? graph header body previous source with
    | none => return none
    | some iteration =>
      changeGraph (·.mapStack body (List.drop 1))
      changeGraph (·.mapStack previous fun stack => stack.take (stack.length - iteration.setup))
      let checkpoint ←
        if iteration.indexed then do
          let checkpoint ← isolateUpdates source header 1
          changeGraph (·.mapStack checkpoint List.dropLast)
          pure (some checkpoint)
        else pure none
      discard (takeCondition header)
      let breakable ← openBreakable .loop header body (some exit) checkpoint
      let inner ← inside breakable (visit fold header (some body) .edge)
      let follow ← visit fold header (some exit) .edge
      return some (← push (.forEach header breakable iteration.element iteration.iterable inner follow))
  | _ => return none

end Folding

end Decompiler
