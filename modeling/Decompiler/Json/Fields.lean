import Decompiler.Error

/-!
Reading the fields of JSON objects, with the fault when one is missing or of the wrong kind.
-/

namespace Decompiler.Fields

abbrev Result (α : Type) := Except ParseFault α

def expect {α : Type} (what : String) : Option α → Result α
  | some value => .ok value
  | none => .error (.shape what)

/-- Reads a field that must be there. -/
def field {α : Type} (json : Json) (name : String) (read : Json → Result α) : Result α := do
  read (← expect ("field " ++ name) (json.field? name))

/-- Reads a field that may be absent or null. -/
def optional {α : Type} (json : Json) (name : String) (read : Json → Result α) :
    Result (Option α) :=
  match json.present? name with
  | some value => some <$> read value
  | none => .ok none

/-- Reads a field that may be absent but not null. -/
def withDefault {α : Type} (json : Json) (name : String) (default : α) (read : Json → Result α) :
    Result α :=
  match json.field? name with
  | some value => read value
  | none => .ok default

def readString (json : Json) : Result String := expect "a string" json.str?

def readBool (json : Json) : Result Bool := expect "a boolean" json.bool?

/-- An integer from `low` to `high`. -/
def readRange (low high : Int) (json : Json) : Result Int := do
  let value ← expect "an integer" json.int?
  if low ≤ value ∧ value ≤ high then return value else throw (.shape "an integer in range")

def readUInt8 (json : Json) : Result UInt8 :=
  return .ofNat (← readRange 0 0xFF json).toNat

def readUInt16 (json : Json) : Result UInt16 :=
  return .ofNat (← readRange 0 0xFFFF json).toNat

def readUInt32 (json : Json) : Result UInt32 :=
  return .ofNat (← readRange 0 0xFFFFFFFF json).toNat

def readInt32 (json : Json) : Result Int32 :=
  return .ofInt (← readRange Int32.minValue.toInt Int32.maxValue.toInt json)

def readInt64 (json : Json) : Result Int64 :=
  return .ofInt (← readRange Int64.minValue.toInt Int64.maxValue.toInt json)

def readFloat (json : Json) : Result Float := expect "a number" json.float?

def readList {α : Type} (read : Json → Result α) (json : Json) : Result (List α) := do
  (← expect "an array" json.arr?).mapM read

end Decompiler.Fields
