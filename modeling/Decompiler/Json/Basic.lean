/-!
JSON values as read from a feed. Numbers keep their written form, because an integer field refuses
a number written with a fraction or an exponent.
-/

namespace Decompiler

/-- A JSON value. An object keeps its fields in the order of their first appearance, one entry a
name. -/
inductive Json where
  | null
  | bool (value : Bool)
  /-- A number written as an integer. -/
  | int (value : Int)
  /-- Any other number: `mantissa * 10 ^ exponent`, with its sign apart so that minus zero is kept. -/
  | decimal (negative : Bool) (mantissa : Nat) (exponent : Int)
  | str (value : String)
  | arr (items : List Json)
  | obj (fields : List (String × Json))
  deriving Inhabited

namespace Json

/-- The value of a field of an object; nothing for another value or an absent field. -/
def field? (name : String) : Json → Option Json
  | .obj fields => fields.lookup name
  | _ => none

/-- The value of a field, where an absent field and `null` are the same. -/
def present? (name : String) (json : Json) : Option Json :=
  match json.field? name with
  | some .null => none
  | other => other

def str? : Json → Option String
  | .str value => some value
  | _ => none

def bool? : Json → Option Bool
  | .bool value => some value
  | _ => none

def int? : Json → Option Int
  | .int value => some value
  | _ => none

def arr? : Json → Option (List Json)
  | .arr items => some items
  | _ => none

/-- Enters a field; a repeated name keeps its place and takes the later value. -/
def setField (fields : List (String × Json)) (name : String) (value : Json) : List (String × Json) :=
  if fields.any (·.1 == name) then
    fields.map fun field => if field.1 == name then (name, value) else field
  else
    fields ++ [(name, value)]

mutual

/-- How deeply arrays and objects are nested, the value itself counted. -/
def height : Json → Nat
  | .arr items => heightOfItems items + 1
  | .obj fields => heightOfFields fields + 1
  | _ => 1

def heightOfItems : List Json → Nat
  | item :: rest => max (height item) (heightOfItems rest)
  | [] => 0

def heightOfFields : List (String × Json) → Nat
  | (_, value) :: rest => max (height value) (heightOfFields rest)
  | [] => 0

end

/-- The least magnitude that no double is nearest to: half a step above the largest one. -/
def doubleLimit : Nat := Nat.pow 2 1024 - Nat.pow 2 970

/-- The magnitude `mantissa * 10 ^ exponent` is beyond the range of doubles. Magnitudes far outside the
range are decided by their digit count, so that no huge power is computed. -/
def exceedsDoubles (mantissa : Nat) (exponent : Int) : Bool :=
  let digits : Int := (Nat.toDigits 10 mantissa).length
  if mantissa = 0 then false
  else if exponent + digits > 400 then true
  else if exponent + digits < -400 then false
  else doubleLimit * Nat.pow 10 (-exponent).toNat ≤ mantissa * Nat.pow 10 exponent.toNat

/-- The double nearest to `mantissa * 10 ^ exponent`. Magnitudes far outside the range of doubles are
decided by their digit count, so that no huge power is computed. -/
def floatOfDecimal (negative : Bool) (mantissa : Nat) (exponent : Int) : Float :=
  let digits : Int := (Nat.toDigits 10 mantissa).length
  let magnitude : Float :=
    if mantissa = 0 then 0.0
    else if exponent + digits > 400 then 1.0 / 0.0
    else if exponent + digits < -400 then 0.0
    else match exponent with
      | .ofNat e => Float.ofScientific (mantissa * Nat.pow 10 e) false 0
      | .negSucc e => Float.ofScientific mantissa true (e + 1)
  if negative then -magnitude else magnitude

/-- A number of either form as a double. -/
def float? : Json → Option Float
  | .int value => some (floatOfDecimal (value < 0) value.natAbs 0)
  | .decimal negative mantissa exponent => some (floatOfDecimal negative mantissa exponent)
  | _ => none

end Json

end Decompiler
