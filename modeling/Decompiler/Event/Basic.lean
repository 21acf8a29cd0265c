import Decompiler.Opcode.Basic

/-!
The instruction feed: a unit is a method body given as an ordered list of events.
-/

namespace Decompiler

/-- A branch target, unique within a unit. -/
abbrev Label := UInt32

/-- A value pushed by `ldc`. -/
inductive Constant where
  | int (value : Int32)
  | long (value : Int64)
  | float (value : Float32)
  | double (value : Float)
  | string (value : String)
  /-- A class literal, by internal name or array descriptor. -/
  | type (name : String)

/-- The kinds of stack-map frames. -/
inductive FrameKind where
  | new
  | full
  | append
  | chop
  | same
  | same1
  deriving DecidableEq

namespace FrameKind

/-- The pseudo code that stands for a frame in the instruction history. -/
def opcode : FrameKind → Opcode
  | .new => .frame_new
  | .full => .frame_full
  | .append => .frame_append
  | .chop => .frame_chop
  | .same => .frame_same
  | .same1 => .frame_same1

def all : List FrameKind := [.new, .full, .append, .chop, .same, .same1]

/-- The name of a kind in a feed. -/
def feedName : FrameKind → String
  | .new => "new"
  | .full => "full"
  | .append => "append"
  | .chop => "chop"
  | .same => "same"
  | .same1 => "same1"

end FrameKind

/-- A member as an instruction names it. -/
structure MemberName where
  owner : String
  name : String
  descriptor : String
  deriving DecidableEq

/-- The owner, the name and the descriptor in one word, as diagnostics show a member. -/
def MemberName.text (member : MemberName) : String :=
  member.owner ++ "." ++ member.name ++ member.descriptor

/-- One event of a feed. -/
inductive Event where
  | label (id : Label)
  /-- An instruction without operands. -/
  | insn (op : Opcode)
  /-- `bipush`, `sipush` or `newarray`. -/
  | int (op : Opcode) (operand : Int32)
  | ldc (constant : Constant)
  | var (op : Opcode) (slot : UInt16)
  | iinc (slot : UInt16) (increment : Int32)
  | field (op : Opcode) (member : MemberName)
  | method (op : Opcode) (member : MemberName)
  /-- A call site linked at run time: its bootstrap method, the implementation of a lambda and the recipe
  of a string concatenation. -/
  | invokeDynamic (name descriptor : String) (bootstrap : MemberName)
      (implementation : Option MemberName) (recipe : Option String)
  /-- `new`, `anewarray`, `checkcast` or `instanceof`. -/
  | type (op : Opcode) (descriptor : String)
  | multiNewArray (descriptor : String) (dimensions : UInt8)
  | jump (op : Opcode) (target : Label)
  /-- A table or lookup switch as parallel lists of keys and targets. -/
  | switch (default : Label) (keys : List Int32) (targets : List Label)
  /-- A protected region; no exception type means that every exception is caught. -/
  | tryCatch (start stop handler : Label) (exception : Option String)
  | lineNumber (line : UInt32) (label : Label)
  | localVariable (slot : UInt16) (name descriptor : String)
  | frame (kind : FrameKind) (locals stack : UInt16)

/-- Labels and debug information are no instructions. -/
def Event.isInstruction : Event → Bool
  | .label _ | .tryCatch .. | .lineNumber .. | .localVariable .. | .frame .. => false
  | _ => true

/-- A method body with its identity. -/
structure CompiledUnit where
  /-- The declaring class, by internal name. -/
  owner : String
  name : String
  descriptor : String
  isStatic : Bool
  events : List Event

namespace CompiledUnit

/-- The name of the unit in diagnostics. -/
def signature (unit : CompiledUnit) : String := unit.owner ++ "." ++ unit.name ++ unit.descriptor

def instructionCount (unit : CompiledUnit) : Nat := unit.events.countP Event.isInstruction

end CompiledUnit

end Decompiler
