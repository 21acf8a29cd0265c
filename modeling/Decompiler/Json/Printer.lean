import Decompiler.Json.Basic

/-!
Writing JSON text without blanks.
-/

namespace Decompiler.Json

def hexDigit (n : Nat) : Char := if n < 10 then Char.ofNat (48 + n) else Char.ofNat (87 + n)

/-- A character inside a written string. Quotes, backslashes and control characters are escaped. -/
def escapeChar (c : Char) : String :=
  if c = '"' then "\\\""
  else if c = '\\' then "\\\\"
  else if c = '\n' then "\\n"
  else if c.toNat < 0x20 ∨ (0x7F ≤ c.toNat ∧ c.toNat ≤ 0x9F) then
    "\\u00" ++ String.ofList [hexDigit (c.toNat / 16), hexDigit (c.toNat % 16)]
  else c.toString

def quote (text : String) : String :=
  text.foldl (fun out c => out ++ escapeChar c) "\"" ++ "\""

mutual

/-- The text of a value, written after `out`. -/
def writeAfter (out : String) : Json → String
  | .null => out ++ "null"
  | .bool value => out ++ (if value then "true" else "false")
  | .int value => out ++ toString value
  | .decimal negative mantissa exponent =>
    out ++ (if negative then "-" else "") ++ toString mantissa ++ "e" ++ toString exponent
  | .str value => out ++ quote value
  | .arr items => writeItems (out ++ "[") true items ++ "]"
  | .obj fields => writeFields (out ++ "\x7b") true fields ++ "\x7d"

def writeItems (out : String) (first : Bool) : List Json → String
  | [] => out
  | item :: rest => writeItems (writeAfter (if first then out else out ++ ",") item) false rest

def writeFields (out : String) (first : Bool) : List (String × Json) → String
  | [] => out
  | (name, value) :: rest =>
    let start := (if first then out else out ++ ",") ++ quote name ++ ":"
    writeFields (writeAfter start value) false rest

end

/-- The text of a value. -/
def render (json : Json) : String := writeAfter "" json

end Decompiler.Json
