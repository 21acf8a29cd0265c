import Decompiler.Operand.Basic

/-!
Adjusting values to the types that they are stored into or converted to.
-/

namespace Decompiler

/-- The character with the code of an int constant. -/
def charOfCode? (code : Int32) : Option Char :=
  if valid : code.toUInt32.isValidChar then some ⟨code.toUInt32, valid⟩ else none

/-- A constant converted to a wider type. The step to a float goes by way of the double. -/
def Number.widen (number : Number) (type : JvmType) : Number :=
  let integral : Int64 := match number with
    | .int value => value.toInt64
    | .long value => value
    | .float value => value.toInt64
    | .double value => value.toInt64
  let floating : Float := match number with
    | .int value => value.toInt64.toFloat
    | .long value => value.toFloat
    | .float value => value.toFloat
    | .double value => value
  match type with
  | .long => .long integral
  | .float => .float floating.toFloat32
  | _ => .double floating

namespace Operand

/-- Proposes a type for the operand; a certain type stays. -/
def suggest (operand : Operand) (type : JvmType) : SupplyM Unit :=
  modify fun supply => { supply with types := supply.types.suggest operand.type type }

/-- The operand, to which the type of the place that it is stored into is proposed. -/
def suggestStored (value : Operand) (type : JvmType) : SupplyM Operand := do
  unless type = .void do value.suggest type
  return value

/-- Adjusts a value to the type it is stored into. Zero and one become booleans, int constants become
characters, and a condition taken as a number becomes a condition again. -/
def coerce (value : Operand) (type : JvmType) : SupplyM Operand := do
  match value.kind, type with
  | .number (.int 0), .boolean => boolean false
  | .number (.int 1), .boolean => boolean true
  | .zeroOrOne test, .boolean => return test
  | .number (.int code), .char =>
    match charOfCode? code with
    | some character => typed (.character character) .char
    | none => value.suggestStored type
  | _, _ => value.suggestStored type

end Operand

end Decompiler
