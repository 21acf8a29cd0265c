/-!
Characters inside literals of source code. Control characters and those beyond sixteen bits are written by
the numbers of their UTF-16 units.
-/

namespace Decompiler.Text

def unitDigits (value : Nat) : List Char := Nat.toDigits 16 value

/-- A UTF-16 unit by its number, with four digits at least. -/
def unitEscape (unit : Nat) : String :=
  let digits := unitDigits unit
  "\\u" ++ String.ofList (List.replicate (4 - digits.length) '0' ++ digits)

/-- The UTF-16 units of a character. -/
def units16 (c : Char) : List Nat :=
  if c.toNat ≤ 0xFFFF then [c.toNat]
  else
    let offset := c.toNat - 0x10000
    [0xD800 + offset / 0x400, 0xDC00 + offset % 0x400]

def isControl (c : Char) : Bool := c.toNat < 0x20 || (0x7F ≤ c.toNat && c.toNat ≤ 0x9F)

/-- A character inside a literal with the given quote. -/
def escapeLiteral (quote c : Char) : String :=
  if c = '\n' then "\\n"
  else if c = '\t' then "\\t"
  else if c = '\r' then "\\r"
  else if c = '\\' then "\\\\"
  else if c = quote then "\\" ++ c.toString
  else if isControl c || c.toNat > 0xFFFF then String.join ((units16 c).map unitEscape)
  else c.toString

/-- A literal in quotes. -/
def literal (quote : Char) (content : List Char) : String :=
  quote.toString ++ String.join (content.map (escapeLiteral quote)) ++ quote.toString

end Decompiler.Text
