import Decompiler.Text.Escaped
import Mathlib.Data.List.Basic

/-!
How literals of source code are read. A text is a sequence of UTF-16 units. Unicode escapes are translated first, where
a backslash starts one if the number of backslashes right before it is even. A literal then goes up to the next quote
that does not belong to an escape.
-/

namespace Decompiler.Literal

/-- The UTF-16 units of a character. One beyond sixteen bits takes two surrogates, of which the second one has its ten
lower bits. -/
def encode (c : Char) : List Nat :=
  if c.toNat < 0x10000 then [c.toNat] else [0xD7C0 + c.toNat / 0x400, 0xDC00 + c.toNat % 0x400]

/-- The UTF-16 units of a text. -/
def units (text : List Char) : List Nat := text.flatMap encode

/-! ### Unicode escapes -/

/-- The value of a hexadecimal digit of either case. -/
def hexDigit? (unit : Nat) : Option Nat :=
  if '0'.toNat ≤ unit ∧ unit ≤ '9'.toNat then some (unit - '0'.toNat)
  else if 'a'.toNat ≤ unit ∧ unit ≤ 'f'.toNat then some (unit - 'a'.toNat + 10)
  else if 'A'.toNat ≤ unit ∧ unit ≤ 'F'.toNat then some (unit - 'A'.toNat + 10)
  else none

/-- What has been read of a unicode escape. -/
inductive Escaping where
  | nothing
  /-- A backslash with an even number of backslashes before it. -/
  | backslash
  /-- The backslash and the letter, any number of times. -/
  | marked
  /-- Some of the four digits, with the number that they write. -/
  | digits (count value : Nat)

/-- The units with their unicode escapes translated; nothing if a backslash with the letter is not followed by four
digits. A backslash that is the result of an escape starts no other one. -/
def translateFrom : Escaping → List Nat → Option (List Nat)
  | .nothing, [] => some []
  | .backslash, [] => some ['\\'.toNat]
  | .marked, [] => none
  | .digits .., [] => none
  | .nothing, unit :: rest =>
    if unit = '\\'.toNat then translateFrom .backslash rest else (unit :: ·) <$> translateFrom .nothing rest
  | .backslash, unit :: rest =>
    if unit = 'u'.toNat then translateFrom .marked rest
    else ('\\'.toNat :: unit :: ·) <$> translateFrom .nothing rest
  | .marked, unit :: rest =>
    if unit = 'u'.toNat then translateFrom .marked rest
    else do translateFrom (.digits 1 (← hexDigit? unit)) rest
  | .digits count value, unit :: rest => do
    let value := 16 * value + (← hexDigit? unit)
    if count = 3 then (value :: ·) <$> translateFrom .nothing rest
    else translateFrom (.digits (count + 1) value) rest

/-- The text with its unicode escapes translated. -/
def translate (text : List Nat) : Option (List Nat) := translateFrom .nothing text

/-! ### Characters of a literal -/

/-- The value of an octal digit. -/
def octalDigit? (unit : Nat) : Option Nat :=
  if '0'.toNat ≤ unit ∧ unit ≤ '7'.toNat then some (unit - '0'.toNat) else none

/-- The number of an octal escape and what stands after it. At most as many digits as are given go on with the number,
and as long as it takes eight bits. -/
def readOctal : Nat → Nat → List Nat → Nat × List Nat
  | more + 1, value, unit :: rest =>
    match octalDigit? unit with
    | some digit =>
      if 8 * value + digit < 256 then readOctal more (8 * value + digit) rest else (value, unit :: rest)
    | none => (value, unit :: rest)
  | _, value, rest => (value, rest)

/-- The letters after a backslash and the characters that they stand for. -/
def letterEscapes : List (Char × Char) :=
  [('b', '\x08'), ('s', ' '), ('t', '\t'), ('n', '\n'), ('f', '\x0c'), ('r', '\r'), ('"', '"'), ('\'', '\''),
    ('\\', '\\')]

/-- What is escaped by the units after a backslash. -/
def readEscape : List Nat → Option (Nat × List Nat)
  | [] => none
  | unit :: rest =>
    match octalDigit? unit with
    | some digit => some (readOctal 2 digit rest)
    | none => (letterEscapes.find? (·.1.toNat = unit)).map fun (_, c) => (c.toNat, rest)

/-- The first unit of a text that goes on with a literal. A line does not end inside of one. -/
def readUnit : List Nat → Option (Nat × List Nat)
  | [] => none
  | unit :: rest =>
    if unit = '\\'.toNat then readEscape rest
    else if unit = '\n'.toNat ∨ unit = '\r'.toNat then none
    else some (unit, rest)

theorem length_readOctal (more value : Nat) (text : List Nat) :
    (readOctal more value text).2.length ≤ text.length := by
  fun_induction readOctal more value text <;> grind

/-- An escape takes something off the text, so reading ends. -/
theorem length_readEscape {text rest : List Nat} {value : Nat} (hRead : readEscape text = some (value, rest)) :
    rest.length < text.length := by
  cases text with
  | nil => cases hRead
  | cons unit more =>
      rw [readEscape] at hRead
      split at hRead
      next digit _ =>
        have hMore := length_readOctal 2 digit more
        rw [Option.some.inj hRead] at hMore
        exact Nat.lt_succ_of_le hMore
      next =>
        obtain ⟨letter, -, hSame⟩ := Option.map_eq_some_iff.mp hRead
        cases hSame
        exact Nat.lt_succ_self _

/-- Each unit takes something off the text. -/
theorem length_readUnit {text rest : List Nat} {value : Nat} (hRead : readUnit text = some (value, rest)) :
    rest.length < text.length := by
  cases text with
  | nil => cases hRead
  | cons unit more =>
      rw [readUnit] at hRead
      split_ifs at hRead
      · exact Nat.lt_succ_of_lt (length_readEscape hRead)
      · cases hRead
        exact Nat.lt_succ_self _

/-- The units of a literal up to its closing quote, and what stands after it. -/
def readUnits (quote : Nat) (text : List Nat) : Option (List Nat × List Nat) :=
  if text.head? = some quote then some ([], text.tail)
  else
    match _hRead : readUnit text with
    | none => none
    | some (value, rest) => (readUnits quote rest).map fun (values, after) => (value :: values, after)
termination_by text.length
decreasing_by exact length_readUnit _hRead

/-- The units of a literal with its quotes, and what stands after it. -/
def read (quote : Nat) (text : List Nat) : Option (List Nat × List Nat) :=
  if text.head? = some quote then readUnits quote text.tail else none

/-! ### One step of the reader -/

variable {quote unit value : Nat} {text rest : List Nat}

theorem translate_cons (hPlain : unit ≠ '\\'.toNat) (rest : List Nat) :
    translate (unit :: rest) = (unit :: ·) <$> translate rest := by
  simp only [translate, translateFrom, if_neg hPlain]

theorem translate_escape (hOther : unit ≠ 'u'.toNat) (rest : List Nat) :
    translate ('\\'.toNat :: unit :: rest) = ('\\'.toNat :: unit :: ·) <$> translate rest := by
  simp only [translate, translateFrom, if_pos, if_neg hOther]

/-- An escape with four digits is translated to the number that they write. -/
theorem translate_digits {a b c d p q r s : Nat} (hA : hexDigit? a = some p) (hB : hexDigit? b = some q)
    (hC : hexDigit? c = some r) (hD : hexDigit? d = some s) (rest : List Nat) :
    translate ('\\'.toNat :: 'u'.toNat :: a :: b :: c :: d :: rest) =
      ((16 * (16 * (16 * p + q) + r) + s) :: ·) <$> translate rest := by
  have hNoLetter : a ≠ 'u'.toNat := by
    rintro rfl
    cases hA
  simp only [translate, translateFrom, if_pos, if_neg hNoLetter, hA, hB, hC, hD]
  simp

/-- A quote ends the literal. -/
theorem readUnits_quote (quote : Nat) (rest : List Nat) : readUnits quote (quote :: rest) = some ([], rest) := by
  rw [readUnits]
  simp

/-- What is no quote is read as the next unit of the literal. -/
theorem readUnits_of_readUnit (hQuote : text.head? ≠ some quote) (hRead : readUnit text = some (value, rest)) :
    readUnits quote text = (readUnits quote rest).map fun (values, after) => (value :: values, after) := by
  rw [readUnits, if_neg hQuote]
  split
  next hNone => simp [hRead] at hNone
  next hSome =>
    obtain ⟨rfl, rfl⟩ : value = _ ∧ rest = _ := by simpa [hRead] using hSome
    rfl

end Decompiler.Literal
