import Decompiler.Event.Basic
import Decompiler.Json.Parser

/-!
What can go wrong, as causes, and the one place where each cause gets its wording.
-/

namespace Decompiler

/-- Why a feed, an options file or a descriptor inside a unit cannot be read. -/
inductive ParseFault where
  | json (fault : Json.SyntaxFault)
  /-- A value of the wrong kind or out of range, or a missing field; says what was expected. -/
  | shape (expected : String)
  | mnemonic (name : String)
  | methodDescriptor (text : String)
  | dynamicDescriptor (text : String)
  | arrayDescriptor (text : String)
  | filter (pattern : String)
  | nothingSelected (input : String)

def ParseFault.message : ParseFault → String
  | .json fault => fault.message
  | .shape expected => "expected " ++ expected
  | .mnemonic name => "unknown opcode mnemonic `" ++ name ++ "`"
  | .methodDescriptor text => "malformed method descriptor `" ++ text ++ "`"
  | .dynamicDescriptor text => "malformed invokedynamic descriptor `" ++ text ++ "`"
  | .arrayDescriptor text => "malformed array descriptor `" ++ text ++ "`"
  | .filter pattern => "invalid unit filter '" ++ pattern ++ "'"
  | .nothingSelected input => "no units selected from " ++ input

/-- Why symbolic execution gives up on a unit. -/
inductive IdiomFault where
  | underflow (depth : Nat)
  | repeatedLabel (label : Label)
  | emptyDuplicate
  | emptyDuplicateBelow
  | instruction (op : Opcode)
  | arrayCode (code : Int32)
  | intOperand (op : Opcode)
  | typeOperand (op : Opcode)
  | notLocal (op : Opcode)
  | notField (op : Opcode)
  | notMethod (op : Opcode)
  | jump (op : Opcode)
  | constructed (owner : String)
  | bootstrap (name owner : String)
  | switchLengths
  | booleanReturn
  | noInstructions

def IdiomFault.message : IdiomFault → String
  | .underflow depth => "operand stack underflow at depth " ++ toString depth
  | .repeatedLabel label => "label " ++ toString label.toNat ++ " visited twice"
  | .emptyDuplicate => "dup on an empty stack"
  | .emptyDuplicateBelow => "dup_x2 on an empty stack"
  | .instruction op => "unsupported instruction " ++ op.mnemonic
  | .arrayCode code => "newarray type code " ++ toString code.toInt
  | .intOperand op => op.mnemonic ++ " with an int operand"
  | .typeOperand op => op.mnemonic ++ " with a type operand"
  | .notLocal op => op.mnemonic ++ " is not a local variable instruction"
  | .notField op => op.mnemonic ++ " is not a field instruction"
  | .notMethod op => op.mnemonic ++ " is not a method instruction"
  | .jump op => op.mnemonic ++ " is not supported"
  | .constructed owner => "constructor of " ++ owner ++ " on an initialized value"
  | .bootstrap name owner => "invokedynamic " ++ name ++ " bootstrapped by " ++ owner
  | .switchLengths => "switch keys and targets differ in length"
  | .booleanReturn => "boolean return without a condition"
  | .noInstructions => "unit has no instructions"

/-- Why a finished node graph cannot be folded into nested statements. -/
inductive StructuralFault where
  | noNodes
  | lost (nodes : List String)
  | manySuccessors (node : String) (count : Nat)
  | noCondition (node : String)
  /-- A switch without a value to switch on; the node is given by its number. -/
  | noSelector (node : Nat)

def StructuralFault.message (signature : String) : StructuralFault → String
  | .noNodes => signature ++ " has no nodes"
  | .lost nodes => signature ++ ": nodes " ++ ", ".intercalate nodes ++ " were never structured"
  | .manySuccessors node count =>
    signature ++ ": node " ++ node ++ " has " ++ toString count ++ " successors and no switch table"
  | .noCondition node => signature ++ ": node " ++ node ++ " branches without a condition"
  | .noSelector node => signature ++ ": switch at n" ++ toString node ++ " has no selector"

inductive Error where
  | io (detail : String)
  | parse (fault : ParseFault)
  /-- The fault comes with a dump of the nodes at the point of failure. -/
  | unsupportedIdiom (signature : String) (fault : IdiomFault) (nodes : String)
  | unresolved (member : MemberName)
  | structural (signature : String) (fault : StructuralFault)
  /-- Work on the unit would never come to an end: on a chain of dominators that comes back to itself, or on the code of
  a switch whose own arms use its value. -/
  | endless (signature : String)
  /-- Every unit of a batch failed. -/
  | allFailed (count : Nat)

namespace Error

def message : Error → String
  | .io detail => "I/O error: " ++ detail
  | .parse fault => "Event feed parse error: " ++ fault.message
  | .unsupportedIdiom signature fault nodes =>
    "Unsupported idiom in " ++ signature ++ ": " ++ fault.message ++ "\n" ++ nodes
  | .unresolved member => "Unable to resolve " ++ member.text
  | .structural signature fault => "Structural inconsistency: " ++ fault.message signature
  | .endless signature => "Endless work on " ++ signature
  | .allFailed count => "Internal error: all " ++ toString count ++ " units failed to decompile"

/-- The failure belongs to the unit at hand, not to the run. -/
def isFatalForUnit : Error → Bool
  | .unsupportedIdiom .. | .unresolved .. | .structural .. | .endless .. => true
  | _ => false

end Error

end Decompiler
