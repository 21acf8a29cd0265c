import Decompiler.Json.Fields

/-!
The JSON form of units. A feed is one unit or an array of units; an event is an object tagged by its
`event` field. Unknown fields are ignored and the optional ones may be absent or null.
-/

namespace Decompiler.Feed

open Fields

def readOpcode (json : Json) : Result Opcode := do
  let name ← readString json
  match Opcode.ofMnemonic? name with
  | some op => return op
  | none => throw (.mnemonic name)

def readMember (json : Json) : Result MemberName := do
  return { owner := ← field json "owner" readString
           name := ← field json "name" readString
           descriptor := ← field json "descriptor" readString }

/-- An object with exactly one field, whose name says the kind of the constant. -/
def readConstant : Json → Result Constant
  | .obj [("int", value)] => .int <$> readInt32 value
  | .obj [("long", value)] => .long <$> readInt64 value
  | .obj [("float", value)] => (fun x => .float x.toFloat32) <$> readFloat value
  | .obj [("double", value)] => .double <$> readFloat value
  | .obj [("string", value)] => .string <$> readString value
  | .obj [("type", value)] => .type <$> readString value
  | _ => .error (.shape "a constant")

def readFrameKind (json : Json) : Result FrameKind := do
  let name ← readString json
  expect "a frame kind" (FrameKind.all.find? (·.feedName == name))

def readEvent (json : Json) : Result Event := do
  match ← field json "event" readString with
  | "label" => return .label (← field json "id" readUInt32)
  | "insn" => return .insn (← field json "op" readOpcode)
  | "int" => return .int (← field json "op" readOpcode) (← field json "operand" readInt32)
  | "ldc" => return .ldc (← field json "constant" readConstant)
  | "var" => return .var (← field json "op" readOpcode) (← field json "slot" readUInt16)
  | "iinc" => return .iinc (← field json "slot" readUInt16) (← field json "increment" readInt32)
  | "field" => return .field (← field json "op" readOpcode) (← readMember json)
  | "method" => return .method (← field json "op" readOpcode) (← readMember json)
  | "invoke_dynamic" =>
    return .invokeDynamic (← field json "name" readString) (← field json "descriptor" readString)
      (← field json "bootstrap" readMember) (← optional json "implementation" readMember)
      (← optional json "recipe" readString)
  | "type" => return .type (← field json "op" readOpcode) (← field json "descriptor" readString)
  | "multi_new_array" =>
    return .multiNewArray (← field json "descriptor" readString) (← field json "dimensions" readUInt8)
  | "jump" => return .jump (← field json "op" readOpcode) (← field json "target" readUInt32)
  | "switch" =>
    return .switch (← field json "default" readUInt32) (← field json "keys" (readList readInt32))
      (← field json "targets" (readList readUInt32))
  | "try_catch" =>
    return .tryCatch (← field json "start" readUInt32) (← field json "end" readUInt32)
      (← field json "handler" readUInt32) (← optional json "exception" readString)
  | "line_number" =>
    return .lineNumber (← field json "line" readUInt32) (← field json "label" readUInt32)
  | "local_variable" =>
    return .localVariable (← field json "slot" readUInt16) (← field json "name" readString)
      (← field json "descriptor" readString)
  | "frame" =>
    return .frame (← field json "kind" readFrameKind) (← withDefault json "locals" 0 readUInt16)
      (← withDefault json "stack" 0 readUInt16)
  | _ => throw (.shape "a known event")

def readUnit (json : Json) : Result CompiledUnit := do
  return { owner := ← field json "owner" readString
           name := ← field json "name" readString
           descriptor := ← field json "descriptor" readString
           isStatic := ← withDefault json "is_static" false readBool
           events := ← field json "events" (readList readEvent) }

/-- One unit, or an array of units. -/
def readUnits : Json → Result (List CompiledUnit)
  | .arr items => items.mapM readUnit
  | json => return [← readUnit json]

/-- The units of a feed given as text. -/
def parseUnits (text : String) : Result (List CompiledUnit) := do
  match Json.parse text with
  | .ok json => readUnits json
  | .error fault => throw (.json fault)

end Decompiler.Feed
