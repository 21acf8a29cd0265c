import Decompiler.Event.Basic
import Decompiler.Execution.Body
import Decompiler.Proofs.Graph.Lookup
import Mathlib.Logic.Function.Basic

/-!
Straight-line integer code, run on an operand stack and evaluated as source code. Both meanings work on the same
local slots, with 32-bit arithmetic that wraps around; the source is evaluated from left to right.
-/

namespace Decompiler.Arithmetic

/-- The values of the local slots. -/
abbrev Locals := UInt16 → Int32

/-- The binary operations of the instructions. -/
inductive Operation where
  | add
  | subtract
  | multiply
  deriving DecidableEq

namespace Operation

def apply : Operation → Int32 → Int32 → Int32
  | add, x, y => x + y
  | subtract, x, y => x - y
  | multiply, x, y => x * y

/-- The operation that a source operator denotes. -/
def ofBinary? : BinaryOperator → Option Operation
  | .add => some add
  | .subtract => some subtract
  | .multiply => some multiply
  | _ => none

/-- The operation of a compound assignment. -/
def ofAssign? : AssignOperator → Option Operation
  | .add => some add
  | .subtract => some subtract
  | .multiply => some multiply
  | _ => none

end Operation

/-! ### Instructions on an operand stack -/

inductive Instruction where
  | constant (value : Int32)
  | load (slot : UInt16)
  | store (slot : UInt16)
  | increment (slot : UInt16) (amount : Int32)
  | operate (operation : Operation)
  | negate
  | duplicate
  | duplicateBelow
  | swap
  | drop
  deriving DecidableEq

/-- The instruction that an event stands for. A constant is pushed by any of the instructions that push ints. -/
def Instruction.ofEvent? : Event → Option Instruction
  | .insn .iconst_m1 => some (.constant (-1))
  | .insn .iconst_0 => some (.constant 0)
  | .insn .iconst_1 => some (.constant 1)
  | .insn .iconst_2 => some (.constant 2)
  | .insn .iconst_3 => some (.constant 3)
  | .insn .iconst_4 => some (.constant 4)
  | .insn .iconst_5 => some (.constant 5)
  | .int .bipush value => some (.constant value)
  | .int .sipush value => some (.constant value)
  | .ldc (.int value) => some (.constant value)
  | .var .iload slot => some (.load slot)
  | .var .istore slot => some (.store slot)
  | .iinc slot amount => some (.increment slot amount)
  | .insn .iadd => some (.operate .add)
  | .insn .isub => some (.operate .subtract)
  | .insn .imul => some (.operate .multiply)
  | .insn .ineg => some .negate
  | .insn .dup => some .duplicate
  | .insn .dup_x1 => some .duplicateBelow
  | .insn .swap => some .swap
  | .insn .pop => some .drop
  | _ => none

/-- Apart from constants and operations, an instruction stands for one event. -/
theorem Instruction.eq_of_ofEvent? {event : Event} {instruction : Instruction}
    (hEvent : ofEvent? event = some instruction) :
    match instruction with
    | .constant _ | .operate _ => True
    | .load slot => event = .var .iload slot
    | .store slot => event = .var .istore slot
    | .increment slot amount => event = .iinc slot amount
    | .negate => event = .insn .ineg
    | .duplicate => event = .insn .dup
    | .duplicateBelow => event = .insn .dup_x1
    | .swap => event = .insn .swap
    | .drop => event = .insn .pop := by
  unfold ofEvent? at hEvent
  split at hEvent <;> cases hEvent <;> first | rfl | trivial

/-- The state of the stack machine, the top of the stack first. -/
structure Machine where
  locals : Locals
  stack : List Int32

namespace Machine

/-- One instruction; nothing if the stack holds too few values. -/
def step (machine : Machine) (instruction : Instruction) : Option Machine :=
  match instruction, machine.stack with
  | .constant value, stack => some { machine with stack := value :: stack }
  | .load slot, stack => some { machine with stack := machine.locals slot :: stack }
  | .store slot, value :: stack => some { locals := Function.update machine.locals slot value, stack }
  | .increment slot amount, stack =>
    some { locals := Function.update machine.locals slot (machine.locals slot + amount), stack }
  | .operate operation, y :: x :: stack => some { machine with stack := operation.apply x y :: stack }
  | .negate, x :: stack => some { machine with stack := -x :: stack }
  | .duplicate, x :: stack => some { machine with stack := x :: x :: stack }
  | .duplicateBelow, y :: x :: stack => some { machine with stack := y :: x :: y :: stack }
  | .swap, y :: x :: stack => some { machine with stack := x :: y :: stack }
  | .drop, _ :: stack => some { machine with stack }
  | _, _ => none

/-- The value that the events return, which end in the return of an int. Nothing if the stack underflows or some
other event is among them. -/
def returned? (machine : Machine) : List Event → Option Int32
  | [] => none
  | [.insn .ireturn] => machine.stack.head?
  | event :: rest => do (← machine.step (← Instruction.ofEvent? event)).returned? rest

end Machine

/-! ### Operands as source code -/

/-- The value of a local after an increment, and the value of the increment itself. -/
def stepped? (operator : UnaryOperator) (value : Int32) : Option (Int32 × Int32) :=
  match operator with
  | .preIncrement => some (value + 1, value + 1)
  | .preDecrement => some (value - 1, value - 1)
  | .postIncrement => some (value + 1, value)
  | .postDecrement => some (value - 1, value)
  | _ => none

mutual

/-- The value of an operand and the locals after its evaluation. `slots` tells where variables live. -/
def evaluate (slots : VariableId → UInt16) : Operand → Locals → Option (Int32 × Locals)
  | ⟨_, _, _, _, _, kind⟩, locals => evaluateKind slots kind locals

def evaluateKind (slots : VariableId → UInt16) : OperandKind → Locals → Option (Int32 × Locals)
  | .number (.int value), locals => some (value, locals)
  | .localVariable id _, locals => some (locals (slots id), locals)
  | .binary left operator right, locals => do
    let (x, locals) ← evaluate slots left locals
    let (y, locals) ← evaluate slots right locals
    return ((← Operation.ofBinary? operator).apply x y, locals)
  | .unary .negate value, locals => do
    let (x, locals) ← evaluate slots value locals
    return (-x, locals)
  | .unary operator ⟨_, _, _, _, _, .localVariable id _⟩, locals => do
    let (after, value) ← stepped? operator (locals (slots id))
    return (value, Function.update locals (slots id) after)
  | .assign ⟨_, _, _, _, _, .localVariable id _⟩ .assign value, locals => do
    let (x, locals) ← evaluate slots value locals
    return (x, Function.update locals (slots id) x)
  -- A compound assignment reads the local before its right side is evaluated.
  | .assign ⟨_, _, _, _, _, .localVariable id _⟩ operator value, locals => do
    let before := locals (slots id)
    let (x, locals) ← evaluate slots value locals
    let result := (← Operation.ofAssign? operator).apply before x
    return (result, Function.update locals (slots id) result)
  | _, _ => none

end

section

variable (slots : VariableId → UInt16) (operand left right value : Operand) {target : Operand} (locals : Locals)

theorem evaluate_eq : evaluate slots operand locals = evaluateKind slots operand.kind locals := by
  cases operand
  rfl

theorem evaluateKind_number (constant : Int32) :
    evaluateKind slots (.number (.int constant)) locals = some (constant, locals) := rfl

theorem evaluateKind_localVariable (id : VariableId) (declares : Bool) :
    evaluateKind slots (.localVariable id declares) locals = some (locals (slots id), locals) := rfl

theorem evaluateKind_binary (operator : BinaryOperator) :
    evaluateKind slots (.binary left operator right) locals = do
      let (x, locals) ← evaluate slots left locals
      let (y, locals) ← evaluate slots right locals
      return ((← Operation.ofBinary? operator).apply x y, locals) := rfl

theorem evaluateKind_negate :
    evaluateKind slots (.unary .negate value) locals = do
      let (x, locals) ← evaluate slots value locals
      return (-x, locals) := rfl

variable {id : VariableId} {declares : Bool}

theorem evaluateKind_assign (hTarget : target.kind = .localVariable id declares) :
    evaluateKind slots (.assign target .assign value) locals = do
      let (x, locals) ← evaluate slots value locals
      return (x, Function.update locals (slots id) x) := by
  cases target
  cases hTarget
  rfl

theorem evaluateKind_compound {operator : AssignOperator} {operation : Operation}
    (hTarget : target.kind = .localVariable id declares) (hOperator : Operation.ofAssign? operator = some operation) :
    evaluateKind slots (.assign target operator value) locals = do
      let (x, after) ← evaluate slots value locals
      let result := operation.apply (locals (slots id)) x
      return (result, Function.update after (slots id) result) := by
  cases target
  cases hTarget
  cases operator with
  | add | subtract | multiply =>
      cases hOperator
      rfl
  | _ => cases hOperator

end

/-- The value returned by the statements among the operands, evaluated from the first one on. A declaration does
nothing. -/
def returnedBy? (slots : VariableId → UInt16) : List Operand → Locals → Option Int32
  | [], _ => none
  | operand :: rest, locals =>
    if !operand.statement then returnedBy? slots rest locals
    else
      match operand.kind with
      | .returns (some value) => (evaluate slots value locals).map Prod.fst
      | .declaration _ => returnedBy? slots rest locals
      | _ => do
        let (_, locals) ← evaluate slots operand locals
        returnedBy? slots rest locals

end Decompiler.Arithmetic

namespace Decompiler

/-- The value that a body without branches returns. -/
def MethodBody.returned? (body : MethodBody) (locals : Arithmetic.Locals) : Option Int32 :=
  Arithmetic.returnedBy? (fun id => (body.locals.get id).slot) body.graph.operands locals

end Decompiler
