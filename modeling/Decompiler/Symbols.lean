import Decompiler.Descriptor
import Decompiler.Error

/-!
What is known about the fields and methods that instructions name.
-/

namespace Decompiler

/-- A resolved field or method. -/
structure Member where
  /-- The class that declares the member. -/
  declaringType : String
  name : String
  /-- The parameters of a method; a field has none. -/
  parameters : List JvmType
  /-- The type of a field or the result of a method. -/
  valueType : JvmType
  isStatic : Bool

namespace Member

/-- A method as its descriptor describes it, declared by the class that the instruction names. -/
def ofMethod (name : MemberName) (isStatic : Bool) : Except Error Member :=
  match MethodDescriptor.ofText? name.descriptor with
  | some descriptor =>
    .ok { declaringType := name.owner, name := name.name, parameters := descriptor.parameters
          valueType := descriptor.result, isStatic }
  | none => .error (.unresolved name)

/-- A field as its descriptor describes it. -/
def ofField (name : MemberName) (isStatic : Bool) : Except Error Member :=
  match JvmType.ofDescriptor? name.descriptor with
  | some type =>
    .ok { declaringType := name.owner, name := name.name, parameters := [], valueType := type
          isStatic }
  | none => .error (.unresolved name)

end Member

/-- Known members, the latest registration of a name first, and the classes known to be iterable. -/
structure SymbolTable where
  members : List (MemberName × Member) := []
  iterables : List String := []
  deriving Inhabited

namespace SymbolTable

/-- Registers a member; the class that declares it may differ from the one that instructions name. -/
def register (table : SymbolTable) (name : MemberName) (member : Member) : SymbolTable :=
  { table with members := (name, member) :: table.members }

def registerMethod (table : SymbolTable) (name : MemberName) (isStatic : Bool) :
    Except Error SymbolTable :=
  return table.register name (← Member.ofMethod name isStatic)

def registerField (table : SymbolTable) (name : MemberName) (isStatic : Bool) :
    Except Error SymbolTable :=
  return table.register name (← Member.ofField name isStatic)

def registerIterable (table : SymbolTable) (type : String) : SymbolTable :=
  { table with iterables := table.iterables ++ [type] }

def lookup (table : SymbolTable) (name : MemberName) : Except Error Member :=
  match table.members.lookup name with
  | some member => .ok member
  | none => .error (.unresolved name)

end SymbolTable

/-- Where members are resolved: from their descriptors alone, or in a table that fails on a member it
does not know. -/
inductive Symbols where
  | descriptors
  | table (known : SymbolTable)

namespace Symbols

def resolveMethod (symbols : Symbols) (name : MemberName) (isStatic : Bool) : Except Error Member :=
  match symbols with
  | .descriptors => Member.ofMethod name isStatic
  | .table known => known.lookup name

def resolveField (symbols : Symbols) (name : MemberName) (isStatic : Bool) : Except Error Member :=
  match symbols with
  | .descriptors => Member.ofField name isStatic
  | .table known => known.lookup name

/-- Whether a class can be iterated over. Without a table every class can. -/
def isIterable : Symbols → String → Bool
  | .descriptors, _ => true
  | .table known, type => known.iterables.contains type

end Symbols

end Decompiler
