/-!
Types of the virtual machine, with the names they have in descriptors and in source code.
-/

namespace Decompiler

/-- A type named by a descriptor or inferred from an instruction. -/
inductive JvmType where
  | int
  | long
  | float
  | double
  | byte
  | char
  | short
  | boolean
  | void
  /-- A class or interface by internal name, such as `java/lang/String`. -/
  | reference (name : String)
  | array (element : JvmType)
  /-- The type of the null constant. -/
  | null
  | unknown
  deriving DecidableEq, Inhabited

/-- An internal class name with its separators as in source code. -/
def sourceClassName (name : String) : String :=
  String.ofList (name.toList.map fun c => if c = '/' then '.' else c)

/-- The part of an internal class name after its last separator. -/
def simpleClassName (name : String) : String :=
  String.ofList (name.toList.reverse.takeWhile (· ≠ '/')).reverse

namespace JvmType

/-- A value takes two slots. -/
def isWide : JvmType → Bool
  | .long | .double => true
  | _ => false

/-- A value is an int on the operand stack. -/
def isIntLike : JvmType → Bool
  | .int | .byte | .char | .short | .boolean => true
  | _ => false

def isPrimitive : JvmType → Bool
  | .reference _ | .array _ | .null | .unknown => false
  | _ => true

/-- The class or interface with the given internal name. -/
def isReferenceTo (type : JvmType) (name : String) : Bool := type == .reference name

def element? : JvmType → Option JvmType
  | .array element => some element
  | _ => none

def string : JvmType := .reference "java/lang/String"

def object : JvmType := .reference "java/lang/Object"

/-- The field descriptor. Null and unknown types have the descriptor of the root class. -/
def descriptor : JvmType → String
  | .int => "I"
  | .long => "J"
  | .float => "F"
  | .double => "D"
  | .byte => "B"
  | .char => "C"
  | .short => "S"
  | .boolean => "Z"
  | .void => "V"
  | .reference name => "L" ++ name ++ ";"
  | .array element => "[" ++ element.descriptor
  | .null | .unknown => "Ljava/lang/Object;"

/-- The qualified name in source code. -/
def sourceName : JvmType → String
  | .int => "int"
  | .long => "long"
  | .float => "float"
  | .double => "double"
  | .byte => "byte"
  | .char => "char"
  | .short => "short"
  | .boolean => "boolean"
  | .void => "void"
  | .reference name => sourceClassName name
  | .array element => element.sourceName ++ "[]"
  | .null => "null"
  | .unknown => "var"

/-- The unqualified name in source code, nested classes joined by points. -/
def simpleName : JvmType → String
  | .reference name =>
    String.ofList ((simpleClassName name).toList.map fun c => if c = '$' then '.' else c)
  | .array element => element.simpleName ++ "[]"
  | type => type.sourceName

end JvmType

/-- The unqualified source name of a class given by internal name. -/
def classText (name : String) : String := (JvmType.reference name).simpleName

end Decompiler
