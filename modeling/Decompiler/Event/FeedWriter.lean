import Decompiler.Decimal.Notation
import Decompiler.Event.Feed

/-!
Writing units as JSON. Every field is written, the optional ones as null when they are absent, and
instruction codes by their mnemonics.
-/

namespace Decompiler.Feed

/-- The number with the shortest digits that read back as the given double; null if it is not finite. -/
def writeFloat (x : Float) : Json :=
  match Decimal.double.decode x.toBits.toNat with
  | .zero negative => .decimal negative 0 0
  | .finite negative magnitude =>
    let shortest := magnitude.shortest
    .decimal negative shortest.digits shortest.exponent
  | .nan | .infinite _ => .null

def writeMember (member : MemberName) : List (String × Json) :=
  [("owner", .str member.owner), ("name", .str member.name), ("descriptor", .str member.descriptor)]

def writeConstant : Constant → Json
  | .int value => .obj [("int", .int value.toInt)]
  | .long value => .obj [("long", .int value.toInt)]
  | .float value => .obj [("float", writeFloat value.toFloat)]
  | .double value => .obj [("double", writeFloat value)]
  | .string value => .obj [("string", .str value)]
  | .type name => .obj [("type", .str name)]

def writeOpcode (op : Opcode) : String × Json := ("op", .str op.mnemonic)

def writeNat (name : String) (value : Nat) : String × Json := (name, .int value)

def writeOptional {α : Type} (write : α → Json) : Option α → Json
  | some value => write value
  | none => .null

/-- The tag of an event and its fields. -/
def eventFields : Event → String × List (String × Json)
  | .label id => ("label", [writeNat "id" id.toNat])
  | .insn op => ("insn", [writeOpcode op])
  | .int op operand => ("int", [writeOpcode op, ("operand", .int operand.toInt)])
  | .ldc constant => ("ldc", [("constant", writeConstant constant)])
  | .var op slot => ("var", [writeOpcode op, writeNat "slot" slot.toNat])
  | .iinc slot increment => ("iinc", [writeNat "slot" slot.toNat, ("increment", .int increment.toInt)])
  | .field op member => ("field", writeOpcode op :: writeMember member)
  | .method op member => ("method", writeOpcode op :: writeMember member)
  | .invokeDynamic name descriptor bootstrap implementation recipe =>
    ("invoke_dynamic",
      [("name", .str name), ("descriptor", .str descriptor), ("bootstrap", .obj (writeMember bootstrap)),
       ("implementation", writeOptional (fun member => .obj (writeMember member)) implementation),
       ("recipe", writeOptional .str recipe)])
  | .type op descriptor => ("type", [writeOpcode op, ("descriptor", .str descriptor)])
  | .multiNewArray descriptor dimensions =>
    ("multi_new_array", [("descriptor", .str descriptor), writeNat "dimensions" dimensions.toNat])
  | .jump op target => ("jump", [writeOpcode op, writeNat "target" target.toNat])
  | .switch default keys targets =>
    ("switch",
      [writeNat "default" default.toNat, ("keys", .arr (keys.map fun key => .int key.toInt)),
       ("targets", .arr (targets.map fun target => .int target.toNat))])
  | .tryCatch start stop handler exception =>
    ("try_catch",
      [writeNat "start" start.toNat, writeNat "end" stop.toNat, writeNat "handler" handler.toNat,
       ("exception", writeOptional .str exception)])
  | .lineNumber line label => ("line_number", [writeNat "line" line.toNat, writeNat "label" label.toNat])
  | .localVariable slot name descriptor =>
    ("local_variable",
      [writeNat "slot" slot.toNat, ("name", .str name), ("descriptor", .str descriptor)])
  | .frame kind locals stack =>
    ("frame",
      [("kind", .str kind.feedName), writeNat "locals" locals.toNat, writeNat "stack" stack.toNat])

def writeEvent (event : Event) : Json :=
  let (tag, fields) := eventFields event
  .obj (("event", .str tag) :: fields)

def writeUnit (unit : CompiledUnit) : Json :=
  .obj [("owner", .str unit.owner), ("name", .str unit.name), ("descriptor", .str unit.descriptor),
    ("is_static", .bool unit.isStatic), ("events", .arr (unit.events.map writeEvent))]

end Decompiler.Feed
