import Decompiler.Text.Printable

/-!
Quoted characters and strings in diagnostic texts, on one line and in visible characters only.
-/

namespace Decompiler.Text

/-- A code point as a numbered escape: its hexadecimal digits, as few as it has, in braces. -/
def numberedEscape (c : Char) : String :=
  "\\u\x7b" ++ String.ofList (Nat.toDigits 16 c.toNat) ++ "\x7d"

/-- A character inside quotes of the given kind. The other kind of quote stands for itself. -/
def escapeIn (quote c : Char) : String :=
  if c = '\x00' then "\\0"
  else if c = '\t' then "\\t"
  else if c = '\r' then "\\r"
  else if c = '\n' then "\\n"
  else if c = '\\' then "\\\\"
  else if c = quote then "\\" ++ quote.toString
  else if isShown c then c.toString
  else numberedEscape c

def quoteChar (c : Char) : String := "'" ++ escapeIn '\'' c ++ "'"

def quoteString (text : String) : String :=
  "\"" ++ String.join (text.toList.map (escapeIn '"')) ++ "\""

end Decompiler.Text
