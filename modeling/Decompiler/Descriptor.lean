import Decompiler.JvmType

/-!
Reading field and method descriptors.
-/

namespace Decompiler

namespace JvmType

/-- The type written at the front of a text, with the rest of the text. A class name ends at the next
semicolon. -/
def readDescriptor : List Char → Option (JvmType × List Char)
  | 'B' :: rest => some (.byte, rest)
  | 'C' :: rest => some (.char, rest)
  | 'D' :: rest => some (.double, rest)
  | 'F' :: rest => some (.float, rest)
  | 'I' :: rest => some (.int, rest)
  | 'J' :: rest => some (.long, rest)
  | 'S' :: rest => some (.short, rest)
  | 'Z' :: rest => some (.boolean, rest)
  | 'V' :: rest => some (.void, rest)
  | 'L' :: rest =>
    match rest.dropWhile (· ≠ ';') with
    | _ :: after => some (.reference (String.ofList (rest.takeWhile (· ≠ ';'))), after)
    | [] => none
  | '[' :: rest => do
    let (element, after) ← readDescriptor rest
    return (.array element, after)
  | _ => none

/-- The type of a complete field descriptor. -/
def ofDescriptor? (text : String) : Option JvmType :=
  match readDescriptor text.toList with
  | some (type, []) => some type
  | _ => none

/-- The text from a byte position on; nothing past its end or inside a character. -/
def dropBytes : List Char → Nat → Option (List Char)
  | text, 0 => some text
  | [], _ + 1 => none
  | c :: rest, count + 1 =>
    if c.utf8Size ≤ count + 1 then dropBytes rest (count + 1 - c.utf8Size) else none

/-- The type written at a byte position, with the position after it. -/
def readDescriptorAt? (text : String) (position : Nat) : Option (JvmType × Nat) := do
  let (type, after) ← readDescriptor (← dropBytes text.toList position)
  return (type, text.utf8ByteSize - (String.ofList after).utf8ByteSize)

/-- The type named by an internal class name or an array descriptor, as in `checkcast`. A malformed
array descriptor names the unknown type. -/
def ofInternalName (name : String) : JvmType :=
  if name.toList.head? = some '[' then (ofDescriptor? name).getD .unknown else .reference name

/-- The element type of a `newarray` type code. -/
def ofArrayCode : Int → JvmType
  | 4 => .boolean
  | 5 => .char
  | 6 => .float
  | 7 => .double
  | 8 => .byte
  | 9 => .short
  | 10 => .int
  | 11 => .long
  | _ => .unknown

end JvmType

structure MethodDescriptor where
  parameters : List JvmType
  result : JvmType
  deriving DecidableEq, Inhabited

namespace MethodDescriptor

/-- Reads types until at most `reserve` characters are left. Every type takes a character, so fuel of
the length of the text never runs out. -/
def readParameters (reserve : Nat) : Nat → List Char → Option (List JvmType)
  | 0, _ => some []
  | fuel + 1, text =>
    if text.length ≤ reserve then some []
    else do
      let (type, rest) ← JvmType.readDescriptor text
      return type :: (← readParameters reserve fuel rest)

/-- Reads `(`, the parameters, `)` and the result. The first closing parenthesis of the text ends the
parameter list, wherever it stands; a class name that runs over it still counts as a parameter. -/
def ofText? (text : String) : Option MethodDescriptor :=
  match text.toList with
  | '(' :: body =>
    match body.dropWhile (· ≠ ')') with
    | _ :: tail => do
      let parameters ← readParameters (tail.length + 1) body.length body
      match JvmType.readDescriptor tail with
      | some (result, []) => return { parameters, result }
      | _ => none
    | [] => none
  | _ => none

def returnsVoid (descriptor : MethodDescriptor) : Bool := descriptor.result == .void

end MethodDescriptor

end Decompiler
