import Decompiler.Descriptor
import Decompiler.Operand.Basic
import Decompiler.Opcode.Basic

/-!
The local variables of a unit. A slot that is used with values of different kinds holds one variable a
kind.
-/

namespace Decompiler

/-- The kind of value that an instruction reads from or writes to a slot. -/
inductive SlotKind where
  | int
  | long
  | float
  | double
  | reference
  deriving DecidableEq

namespace SlotKind

/-- The kind of a load, a store or an increment. -/
def ofOpcode? : Opcode → Option SlotKind
  | .iload | .istore | .iinc => some .int
  | .lload | .lstore => some .long
  | .fload | .fstore => some .float
  | .dload | .dstore => some .double
  | .aload | .astore => some .reference
  | _ => none

def ofType : JvmType → SlotKind
  | .long => .long
  | .float => .float
  | .double => .double
  | type => if type.isIntLike then .int else .reference

/-- The type guessed for a variable of which nothing but its kind is known. -/
def defaultType : SlotKind → JvmType
  | .int => .int
  | .long => .long
  | .float => .float
  | .double => .double
  | .reference => .object

end SlotKind

structure LocalVariable where
  slot : UInt16
  kind : SlotKind
  name : String
  type : TypeRef
  parameter : Bool := false
  /-- The name comes from debug information. -/
  named : Bool := false

instance : Inhabited LocalVariable := ⟨{ slot := 0, kind := .int, name := "", type := .known .unknown }⟩

/-- The variables of a unit, numbered in the order of their first use. -/
structure LocalVariables where
  list : List LocalVariable := []
  isStatic : Bool
  owner : String
  deriving Inhabited

namespace LocalVariables

def get (table : LocalVariables) (id : VariableId) : LocalVariable := table.list.getD id default

def name (table : LocalVariables) (id : VariableId) : String := (table.get id).name

/-- The variable of a slot and kind. -/
def find? (table : LocalVariables) (slot : UInt16) (kind : SlotKind) : Option VariableId :=
  table.list.findIdx? fun entry => entry.slot == slot && entry.kind == kind

def add (table : LocalVariables) (entry : LocalVariable) : LocalVariables :=
  { table with list := table.list ++ [entry] }

/-- The parameters from a slot on, numbered from `index`; long and double take two slots. -/
def parameterEntries (slot : UInt16) (index : Nat) : List JvmType → List LocalVariable
  | [] => []
  | type :: rest =>
    { slot, kind := .ofType type, name := "arg" ++ toString index, type := .known type
      parameter := true } ::
      parameterEntries (slot + if type.isWide then 2 else 1) (index + 1) rest

/-- The table of a unit before its first instruction. An instance method has `this` in slot zero. -/
def ofDescriptor (owner : String) (isStatic : Bool) (descriptor : MethodDescriptor) : LocalVariables :=
  { list := parameterEntries (if isStatic then 0 else 1) 0 descriptor.parameters, isStatic, owner }

def isThis (table : LocalVariables) (slot : UInt16) : Bool := !table.isStatic && slot == 0

/-- The variable of a slot and kind, made on first use. -/
def variableAt (table : LocalVariables) (slot : UInt16) (kind : SlotKind) :
    SupplyM (VariableId × LocalVariables) := do
  match table.find? slot kind with
  | some id => return (id, table)
  | none =>
    let reused := table.list.countP (·.slot == slot)
    let plain := "local" ++ toString slot.toNat
    let name := if reused = 0 then plain else plain ++ "_" ++ toString reused
    let type ← Supply.guess kind.defaultType
    return (table.list.length, table.add { slot, kind, name, type })

/-- The operand that a load reads from a slot. -/
def load (table : LocalVariables) (slot : UInt16) (op : Opcode) :
    SupplyM (Operand × LocalVariables) := do
  if table.isThis slot then
    return (← Operand.typed .this (.reference table.owner), table)
  let (id, table) ← table.variableAt slot ((SlotKind.ofOpcode? op).getD .reference)
  return (← Operand.ofVariable id (table.get id).type, table)

/-- The operand that a store of a value writes to. The variable learns the type of the value. -/
def store (table : LocalVariables) (slot : UInt16) (op : Opcode) (value : Operand) :
    SupplyM (Operand × LocalVariables) := do
  let (id, table) ← table.variableAt slot ((SlotKind.ofOpcode? op).getD .reference)
  let ref := (table.get id).type
  modify fun supply =>
    let type := supply.types.typeOf value.type
    if supply.types.isFixed ref || type = .unknown || type = .null then supply
    else { supply with types := supply.types.suggest ref type }
  return (← Operand.ofVariable id ref, table)

/-- Takes an entry of the debug information. The first name that a variable gets stays. -/
def rename (table : LocalVariables) (slot : UInt16) (name descriptor : String) :
    SupplyM LocalVariables := do
  if table.isThis slot then return table
  let type := (JvmType.ofDescriptor? descriptor).getD .unknown
  let (id, table) ← table.variableAt slot (.ofType type)
  let entry := table.get id
  if entry.named then return table
  unless type = .unknown do
    modify fun supply => { supply with types := supply.types.fix entry.type type }
  return { table with list := table.list.set id { entry with name, named := true } }

/-- The other variables of the same slot. -/
def slotSiblings (table : LocalVariables) (id : VariableId) : List VariableId :=
  (List.range table.list.length).filter fun other =>
    (table.get other).slot == (table.get id).slot && other != id

def parameters (table : LocalVariables) : List LocalVariable := table.list.filter (·.parameter)

end LocalVariables

end Decompiler
