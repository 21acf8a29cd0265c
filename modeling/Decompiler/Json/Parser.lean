import Decompiler.Json.Basic

/-!
Reading JSON text. The reader is strict: no raw control characters in strings, no lone surrogate
escapes, no leading zeros, no numbers beyond the range of doubles, at most 127 levels of nesting and
nothing after the value.
-/

namespace Decompiler.Json

/-- Why a text is not JSON. -/
inductive SyntaxFault where
  | endOfText
  | unexpected (found : Char)
  | badEscape
  | controlCharacter
  | numberRange
  | tooDeep
  | trailing
  deriving DecidableEq

def SyntaxFault.message : SyntaxFault → String
  | .endOfText => "the text ends inside a value"
  | .unexpected found => s!"unexpected character {found}"
  | .badEscape => "bad escape in a string"
  | .controlCharacter => "control character in a string"
  | .numberRange => "number out of range"
  | .tooDeep => "nested too deeply"
  | .trailing => "characters after the value"

/-- A reader takes a value off the front of the text. -/
abbrev Reader (α : Type) := List Char → Except SyntaxFault (α × List Char)

def isBlank (c : Char) : Bool := c = ' ' || c = '\n' || c = '\t' || c = '\r'

def skipBlanks (text : List Char) : List Char := text.dropWhile isBlank

/-- The fault of a text that starts with the wrong character. -/
def unexpected : List Char → SyntaxFault
  | [] => .endOfText
  | c :: _ => .unexpected c

def hexValue? (c : Char) : Option Nat :=
  if '0' ≤ c ∧ c ≤ '9' then some (c.toNat - 48)
  else if 'a' ≤ c ∧ c ≤ 'f' then some (c.toNat - 87)
  else if 'A' ≤ c ∧ c ≤ 'F' then some (c.toNat - 55)
  else none

/-- Four hexadecimal digits. -/
def readUnit : Reader Nat
  | a :: b :: c :: d :: rest =>
    match hexValue? a, hexValue? b, hexValue? c, hexValue? d with
    | some a, some b, some c, some d => .ok (((a * 16 + b) * 16 + c) * 16 + d, rest)
    | _, _, _, _ => .error .badEscape
  | _ => .error .endOfText

/-- The character named by the escape after a backslash. A high surrogate needs the escape of a low
one right after it. -/
def readEscape : Reader Char
  | '"' :: rest => .ok ('"', rest)
  | '\\' :: rest => .ok ('\\', rest)
  | '/' :: rest => .ok ('/', rest)
  | 'b' :: rest => .ok ('\x08', rest)
  | 'f' :: rest => .ok ('\x0c', rest)
  | 'n' :: rest => .ok ('\n', rest)
  | 'r' :: rest => .ok ('\r', rest)
  | 't' :: rest => .ok ('\t', rest)
  | 'u' :: rest => do
    let (high, rest) ← readUnit rest
    if high < 0xD800 ∨ 0xDFFF < high then return (Char.ofNat high, rest)
    if 0xDC00 ≤ high then throw .badEscape
    match rest with
    | '\\' :: 'u' :: rest =>
      let (low, rest) ← readUnit rest
      if low < 0xDC00 ∨ 0xDFFF < low then throw .badEscape
      return (Char.ofNat (0x10000 + (high - 0xD800) * 0x400 + (low - 0xDC00)), rest)
    | _ => throw .badEscape
  | [] => .error .endOfText
  | _ :: _ => .error .badEscape

/-- The rest of a string after its opening quote; `done` holds its characters so far, last first. -/
def readStringFrom : Nat → List Char → Reader String
  | 0, _, _ => .error .endOfText
  | _ + 1, _, [] => .error .endOfText
  | _ + 1, done, '"' :: rest => .ok (String.ofList done.reverse, rest)
  | fuel + 1, done, '\\' :: rest => do
    let (c, rest) ← readEscape rest
    readStringFrom fuel (c :: done) rest
  | fuel + 1, done, c :: rest =>
    if c.toNat < 0x20 then .error .controlCharacter else readStringFrom fuel (c :: done) rest

/-- A string after its opening quote. Every step takes a character, so the length of the text bounds
them. -/
def readString (text : List Char) : Except SyntaxFault (String × List Char) :=
  readStringFrom (text.length + 1) [] text

def natOfDigits (digits : List Char) : Nat :=
  digits.foldl (fun value c => value * 10 + (c.toNat - 48)) 0

/-- Digits, at least one. -/
def readDigits (text : List Char) : Except SyntaxFault (List Char × List Char) :=
  match text.takeWhile Char.isDigit with
  | [] => .error (unexpected text)
  | digits => .ok (digits, text.dropWhile Char.isDigit)

/-- The exponent part of a number, if there is one. -/
def readExponent : Reader (Option Int)
  | c :: rest =>
    if c = 'e' ∨ c = 'E' then do
      let (negative, rest) := match rest with
        | '-' :: rest => (true, rest)
        | '+' :: rest => (false, rest)
        | rest => (false, rest)
      let (digits, rest) ← readDigits rest
      let value : Int := natOfDigits digits
      return (some (if negative then -value else value), rest)
    else .ok (none, c :: rest)
  | [] => .ok (none, [])

/-- The fraction part of a number, if there is one. -/
def readFraction : Reader (Option (List Char))
  | '.' :: rest => do
    let (digits, rest) ← readDigits rest
    return (some digits, rest)
  | rest => .ok (none, rest)

/-- The minus sign of a number, if there is one. -/
def readSign : List Char → Bool × List Char
  | '-' :: rest => (true, rest)
  | rest => (false, rest)

/-- The digits before the fraction. A zero stands alone. -/
def readWhole : Reader (List Char)
  | '0' :: rest => .ok (['0'], rest)
  | text => readDigits text

/-- A number. An integer is a number without fraction and exponent other than minus zero. -/
def readNumber (text : List Char) : Except SyntaxFault (Json × List Char) := do
  let (negative, text) := readSign text
  let (whole, rest) ← readWhole text
  let (fraction, rest) ← readFraction rest
  let (exponent, rest) ← readExponent rest
  let leadingZero := whole = ['0'] && rest.head?.any Char.isDigit
  if leadingZero then throw (unexpected rest)
  let mantissa := natOfDigits (whole ++ fraction.getD [])
  match fraction, exponent with
  | none, none =>
    if exceedsDoubles mantissa 0 then throw .numberRange
    else if negative ∧ mantissa = 0 then return (.decimal true 0 0, rest)
    else return (.int (if negative then -(mantissa : Int) else mantissa), rest)
  | _, _ =>
    let scale := exponent.getD 0 - (fraction.getD []).length
    if exceedsDoubles mantissa scale then throw .numberRange
    else return (.decimal negative mantissa scale, rest)

/-- A word that must stand at the front of the text. -/
def readWord (word : String) (value : Json) (text : List Char) :
    Except SyntaxFault (Json × List Char) :=
  let expected := word.toList
  if expected.isPrefixOf text then .ok (value, text.drop expected.length)
  else .error (unexpected text)

/-- What a pass over a container does next: read a value, or go on inside a list or an object whose
parts so far are given, last first. -/
inductive Goal where
  | value
  | items (done : List Json)
  | fields (done : List (String × Json))

/-- Reads what the goal asks for. `levels` counts the containers that may still be opened. Every step
takes a character off the text, so fuel above its length never runs out. -/
def read : (fuel levels : Nat) → Goal → Reader Json
  | 0, _, _, _ => .error .endOfText
  | fuel + 1, levels, .value, text =>
    match skipBlanks text with
    | [] => .error .endOfText
    | '"' :: rest => do
      let (value, rest) ← readString rest
      return (.str value, rest)
    | '[' :: rest =>
      match levels with
      | 0 => .error .tooDeep
      | levels + 1 =>
        match skipBlanks rest with
        | ']' :: rest => .ok (.arr [], rest)
        | rest => do
          let (value, rest) ← read fuel levels .value rest
          read fuel levels (.items [value]) rest
    | '\x7b' :: rest =>
      match levels with
      | 0 => .error .tooDeep
      | levels + 1 =>
        match skipBlanks rest with
        | '\x7d' :: rest => .ok (.obj [], rest)
        | '"' :: rest => do
          let (name, value, rest) ← readField fuel levels rest
          read fuel levels (.fields [(name, value)]) rest
        | rest => .error (unexpected rest)
    | text@('t' :: _) => readWord "true" (.bool true) text
    | text@('f' :: _) => readWord "false" (.bool false) text
    | text@('n' :: _) => readWord "null" .null text
    | text@(c :: _) => if c = '-' ∨ c.isDigit then readNumber text else .error (.unexpected c)
  | fuel + 1, levels, .items done, text =>
    match skipBlanks text with
    | ',' :: rest => do
      let (value, rest) ← read fuel levels .value rest
      read fuel levels (.items (value :: done)) rest
    | ']' :: rest => .ok (.arr done.reverse, rest)
    | rest => .error (unexpected rest)
  | fuel + 1, levels, .fields done, text =>
    match skipBlanks text with
    | ',' :: rest =>
      match skipBlanks rest with
      | '"' :: rest => do
        let (name, value, rest) ← readField fuel levels rest
        read fuel levels (.fields (setField done name value)) rest
      | rest => .error (unexpected rest)
    | '\x7d' :: rest => .ok (.obj done, rest)
    | rest => .error (unexpected rest)
where
  /-- A field of an object after the opening quote of its name. -/
  readField (fuel levels : Nat) (text : List Char) :
      Except SyntaxFault (String × Json × List Char) := do
    let (name, rest) ← readString text
    match skipBlanks rest with
    | ':' :: rest =>
      let (value, rest) ← read fuel levels .value rest
      return (name, value, rest)
    | rest => throw (unexpected rest)

/-- The value written by a whole text. -/
def parse (text : String) : Except SyntaxFault Json := do
  let chars := text.toList
  let (value, rest) ← read (2 * chars.length + 2) 127 .value chars
  match skipBlanks rest with
  | [] => return value
  | _ => throw .trailing

end Decompiler.Json
