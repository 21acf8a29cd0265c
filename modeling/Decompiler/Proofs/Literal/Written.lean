import Decompiler.Code.Printer
import Decompiler.Proofs.Literal.Reading

/-!
Literals as they are written. Each character of a literal stands for itself, behind a backslash or as the escapes of its
units, and the reader takes it back to its units. So a string literal is read as the string that it was written for.
-/

namespace Decompiler.Literal

open Text

/-! ### Numbered units -/

/-- Hexadecimal digits with zeros in front, up to a width at least. -/
def padded (width n : Nat) : List Char := List.replicate (width - (unitDigits n).length) '0' ++ unitDigits n

/-- A number below sixteen has one digit. -/
theorem unitDigits_of_lt {n : Nat} (hSmall : n < 16) : unitDigits n = [n.digitChar] := by
  rw [unitDigits, Nat.toDigits_eq_if (by decide), if_pos hSmall]

/-- Each further place takes the lowest digit of what is left. -/
theorem padded_step (width n : Nat) :
    padded (width + 2) n = padded (width + 1) (n / 16) ++ [(n % 16).digitChar] := by
  by_cases hSmall : n < 16
  · have hZero : n / 16 = 0 := Nat.div_eq_of_lt hSmall
    have hFront : List.replicate (width + 1) '0' = List.replicate width '0' ++ [Nat.digitChar 0] :=
      List.replicate_succ'
    rw [padded, padded, hZero, unitDigits_of_lt hSmall, unitDigits_of_lt (by decide), Nat.mod_eq_of_lt hSmall]
    simp [hFront]
  · have hDigits : unitDigits n = unitDigits (n / 16) ++ [(n % 16).digitChar] := by
      rw [unitDigits, Nat.toDigits_eq_if (by decide), if_neg hSmall, unitDigits]
    rw [padded, padded, hDigits, List.length_append, List.length_singleton, List.append_assoc]
    simp

/-- The escape of a unit has four digits. -/
theorem toList_unitEscape {unit : Nat} (hUnit : unit < 0x10000) :
    (unitEscape unit).toList = ['\\', 'u', (unit / 0x1000).digitChar, (unit / 0x100 % 16).digitChar,
      (unit / 0x10 % 16).digitChar, (unit % 16).digitChar] := by
  have hFirst : padded 1 (unit / 0x1000) = [(unit / 0x1000).digitChar] := by
    simp [padded, unitDigits_of_lt (show unit / 0x1000 < 16 by omega)]
  have hFour : padded 4 unit = [(unit / 0x1000).digitChar, (unit / 0x100 % 16).digitChar,
      (unit / 0x10 % 16).digitChar, (unit % 16).digitChar] := by
    simp [padded_step, Nat.div_div_eq_div_mul, hFirst]
  change ("\\u" ++ String.ofList (padded 4 unit)).toList = _
  simp [hFour]

theorem hexDigit?_digitChar : ∀ n < 16, hexDigit? n.digitChar.toNat = some n := by decide

theorem encode_digitChar : ∀ n < 16, encode n.digitChar = [n.digitChar.toNat] := by decide

/-! ### Characters of a literal -/

variable {quote c : Char} {code values : List Nat}

/-- The unit stands for itself in a literal. -/
structure Inert (quote : Char) (unit : Nat) : Prop where
  single : unit < 0x10000
  backslash : unit ≠ '\\'.toNat
  quote : unit ≠ quote.toNat
  line : ¬(unit = '\n'.toNat ∨ unit = '\r'.toNat)

/-- How a character is written in a literal. -/
inductive Written (quote c : Char) : List Char → Prop where
  | named {letter : Char} (hNamed : (letter, c) ∈ letterEscapes) : Written quote c ['\\', letter]
  | numbered (inert : ∀ unit ∈ encode c, Inert quote unit) :
      Written quote c ((encode c).flatMap fun unit => (unitEscape unit).toList)
  | plain (inert : Inert quote c.toNat) : Written quote c [c]

/-- The units that are written are those of the character. -/
theorem units16_eq_encode (c : Char) : units16 c = encode c := by
  unfold units16 encode
  split
  next hSingle => rw [if_pos (by omega)]
  next hPair =>
    rw [if_neg (by omega)]
    have hHigh : 0xD800 + (c.toNat - 0x10000) / 0x400 = 0xD7C0 + c.toNat / 0x400 := by omega
    have hLow : 0xDC00 + (c.toNat - 0x10000) % 0x400 = 0xDC00 + c.toNat % 0x400 := by omega
    simp only [hHigh, hLow]

/-- A character that is no backslash, no quote and no end of a line stands for itself, if it is a single unit. -/
theorem inert_toNat (hSingle : c.toNat < 0x10000) (hBackslash : c ≠ '\\') (hSame : c ≠ quote) (hLine : c ≠ '\n')
    (hReturn : c ≠ '\r') : Inert quote c.toNat where
  single := hSingle
  backslash := by simpa only [ne_eq, Char.toNat_inj]
  quote := by simpa only [ne_eq, Char.toNat_inj]
  line := by simpa only [Char.toNat_inj, not_or] using ⟨hLine, hReturn⟩

theorem toNat_lt (c : Char) : c.toNat < 0x110000 := by
  have hValid := c.valid
  unfold UInt32.isValidChar Nat.isValidChar at hValid
  change c.val.toNat < _
  omega

/-- Surrogates stand for themselves. -/
theorem inert_surrogates (hQuote : quote = '"' ∨ quote = '\'') (hPair : ¬c.toNat < 0x10000) :
    ∀ unit ∈ encode c, Inert quote unit := by
  have hLast := toNat_lt c
  intro unit hUnit
  rw [encode, if_neg hPair, List.mem_pair] at hUnit
  have hRange : 0xD800 ≤ unit ∧ unit < 0xE000 := by omega
  have hFar : ∀ d : Char, d.toNat < 0x80 → unit ≠ d.toNat := by omega
  refine ⟨by omega, hFar _ (by decide), hFar _ ?_, not_or.mpr ⟨hFar _ (by decide), hFar _ (by decide)⟩⟩
  rcases hQuote with rfl | rfl <;> decide

/-- The writer picks one of the ways to write a character. -/
theorem written_escapeLiteral (hQuote : quote = '"' ∨ quote = '\'') (c : Char) :
    Written quote c (escapeLiteral quote c).toList := by
  unfold escapeLiteral
  split_ifs with hLine hTab hReturn hBackslash hSame hNumbered
  · subst hLine
    exact .named (by decide)
  · subst hTab
    exact .named (by decide)
  · subst hReturn
    exact .named (by decide)
  · subst hBackslash
    exact .named (by decide)
  · subst hSame
    rcases hQuote with rfl | rfl
    · exact .named (by decide)
    · exact .named (by decide)
  · have hText : (String.join ((units16 c).map unitEscape)).toList =
        (encode c).flatMap fun unit => (unitEscape unit).toList := by
      rw [units16_eq_encode]
      simp [String.toList_join, List.flatMap_map]
    rw [hText]
    apply Written.numbered
    by_cases hSingle : c.toNat < 0x10000
    · simpa [encode, hSingle] using inert_toNat hSingle hBackslash hSame hLine hReturn
    · exact inert_surrogates hQuote hSingle
  · have hSingle : c.toNat < 0x10000 := by simp at hNumbered; omega
    simpa using Written.plain (inert_toNat hSingle hBackslash hSame hLine hReturn)

/-! ### Reading what is written -/

/-- The code is translated to the units, whatever stands after it. -/
def Translates (code translated : List Nat) : Prop :=
  ∀ rest, translate (code ++ rest) = (translated ++ ·) <$> translate rest

/-- The translated units go on with a literal as the values. -/
def Continues (quote : Char) (translated values : List Nat) : Prop :=
  ∀ rest, readUnits quote.toNat (translated ++ rest) =
    (readUnits quote.toNat rest).map fun (more, after) => (values ++ more, after)

/-- In a literal the code stands for the values. -/
def Denotes (quote : Char) (code values : List Nat) : Prop :=
  ∃ translated, Translates code translated ∧ Continues quote translated values

theorem denotes_nil : Denotes quote [] [] := ⟨[], by simp [Translates], by simp [Continues]⟩

/-- Codes one after the other stand for the values one after the other. -/
theorem Denotes.append {first second values others : List Nat} (denotes : Denotes quote first values)
    (next : Denotes quote second others) : Denotes quote (first ++ second) (values ++ others) := by
  obtain ⟨front, translates, continues⟩ := denotes
  obtain ⟨back, translatesNext, continuesNext⟩ := next
  refine ⟨front ++ back, ?_, ?_⟩
  · intro rest
    rw [List.append_assoc, translates, translatesNext]
    simp [Function.comp_def]
  · intro rest
    rw [List.append_assoc, continues, continuesNext]
    simp [Function.comp_def]

/-- A literal between quotes is read as its values. -/
theorem Denotes.read (denotes : Denotes quote code values) (hQuote : quote.toNat ≠ '\\'.toNat) :
    (translate (quote.toNat :: (code ++ [quote.toNat]))).bind (Literal.read quote.toNat) = some (values, []) := by
  obtain ⟨translated, translates, continues⟩ := denotes
  have hTranslate : translate (quote.toNat :: (code ++ [quote.toNat])) =
      some (quote.toNat :: (translated ++ [quote.toNat])) := by
    rw [translate_cons hQuote, translates, translate_cons hQuote]
    rfl
  rw [hTranslate, Option.bind_some, Literal.read]
  simp [continues [quote.toNat], readUnits_quote]

/-- A unit that is translated to itself and is inert stands for itself. -/
theorem denotes_unit {unit : Nat} (inert : Inert quote unit) (translates : Translates code [unit]) :
    Denotes quote code [unit] := by
  refine ⟨[unit], translates, ?_⟩
  intro rest
  have hQuote : (unit :: rest).head? ≠ some quote.toNat := by simpa using inert.quote
  have hRead : readUnit (unit :: rest) = some (unit, rest) := by
    simp only [readUnit, if_neg inert.backslash, if_neg inert.line]
  exact readUnits_of_readUnit hQuote hRead

theorem denotes_plain (inert : Inert quote c.toNat) : Denotes quote (units [c]) [c.toNat] := by
  have hUnits : units [c] = [c.toNat] := by simp [units, encode, inert.single]
  rw [hUnits]
  exact denotes_unit inert (translate_cons inert.backslash)

/-- An escape of four digits is translated before the literal is read. -/
theorem denotes_numbered {unit : Nat} (inert : Inert quote unit) :
    Denotes quote (units (unitEscape unit).toList) [unit] := by
  have hDigits : ∀ n, n % 16 < 16 := fun n => Nat.mod_lt n (by decide)
  have hFirst : unit / 0x1000 < 16 := by have := inert.single; omega
  have hUnits : units (unitEscape unit).toList = ['\\'.toNat, 'u'.toNat, (unit / 0x1000).digitChar.toNat,
      (unit / 0x100 % 16).digitChar.toNat, (unit / 0x10 % 16).digitChar.toNat, (unit % 16).digitChar.toNat] := by
    rw [toList_unitEscape inert.single]
    simp only [units, List.flatMap_cons, List.flatMap_nil, encode_digitChar _ hFirst, encode_digitChar _ (hDigits _)]
    rfl
  apply denotes_unit inert
  intro rest
  have hTranslate := translate_digits (hexDigit?_digitChar _ hFirst) (hexDigit?_digitChar _ (hDigits (unit / 0x100)))
    (hexDigit?_digitChar _ (hDigits (unit / 0x10))) (hexDigit?_digitChar _ (hDigits unit)) rest
  have hValue : 16 * (16 * (16 * (unit / 0x1000) + unit / 0x100 % 16) + unit / 0x10 % 16) + unit % 16 = unit := by
    omega
  rw [hValue] at hTranslate
  rw [hUnits]
  exact hTranslate

theorem units_append (first second : List Char) : units (first ++ second) = units first ++ units second :=
  List.flatMap_append

/-- By induction on the units: a character outside the basic plane has two. -/
theorem denotes_numberedUnits {inner : List Nat} (inert : ∀ unit ∈ inner, Inert quote unit) :
    Denotes quote (units (inner.flatMap fun unit => (unitEscape unit).toList)) inner := by
  induction inner with
  | nil => exact denotes_nil
  | cons unit inner ih =>
      obtain ⟨inertFirst, inertOthers⟩ := List.forall_mem_cons.mp inert
      rw [List.flatMap_cons, units_append]
      exact (denotes_numbered inertFirst).append (ih inertOthers)

/-- A letter behind a backslash names its character. -/
theorem readEscape_named {letter : Char} (hNamed : (letter, c) ∈ letterEscapes) (rest : List Nat) :
    readEscape (letter.toNat :: rest) = some (c.toNat, rest) := by
  have hFound : ∀ entry ∈ letterEscapes, octalDigit? entry.1.toNat = none ∧
      letterEscapes.find? (·.1.toNat = entry.1.toNat) = some entry := by decide
  obtain ⟨hOctal, hFind⟩ := hFound _ hNamed
  simp only [readEscape, hOctal, hFind, Option.map_some]

/-- A backslash and a letter stand for the character that the letter names. -/
theorem denotes_named {letter : Char} (hNamed : (letter, c) ∈ letterEscapes) (hQuote : quote.toNat ≠ '\\'.toNat) :
    Denotes quote (units ['\\', letter]) (encode c) := by
  have hUnits : ∀ entry ∈ letterEscapes, units ['\\', entry.1] = ['\\'.toNat, entry.1.toNat] ∧
      entry.1.toNat ≠ 'u'.toNat ∧ encode entry.2 = [entry.2.toNat] := by decide
  obtain ⟨hCode, hOther, hValue⟩ := hUnits _ hNamed
  rw [hCode, hValue]
  refine ⟨['\\'.toNat, letter.toNat], translate_escape hOther, ?_⟩
  intro rest
  have hHead : ('\\'.toNat :: letter.toNat :: rest).head? ≠ some quote.toNat := by simpa using hQuote.symm
  have hRead : readUnit ('\\'.toNat :: letter.toNat :: rest) = some (c.toNat, rest) := by
    rw [readUnit, if_pos rfl, readEscape_named hNamed]
  exact readUnits_of_readUnit hHead hRead

/-- A character that is written in a literal is read as its units. -/
theorem Written.denotes {code : List Char} (written : Written quote c code) (hQuote : quote.toNat ≠ '\\'.toNat) :
    Denotes quote (units code) (encode c) := by
  cases written with
  | named hNamed => exact denotes_named hNamed hQuote
  | numbered inert => exact denotes_numberedUnits inert
  | plain inert => simpa [encode, inert.single] using denotes_plain inert

/-- By induction on the characters of a string. -/
theorem denotes_content (hQuote : quote = '"' ∨ quote = '\'') (content : List Char) :
    Denotes quote (units (content.flatMap fun c => (escapeLiteral quote c).toList)) (units content) := by
  have hNoBackslash : quote.toNat ≠ '\\'.toNat := by rcases hQuote with rfl | rfl <;> decide
  induction content with
  | nil => exact denotes_nil
  | cons c content ih =>
      rw [List.flatMap_cons, units_append]
      exact ((written_escapeLiteral hQuote c).denotes hNoBackslash).append ih

/-- A literal in quotes of either kind is read as the units of its content. -/
theorem read_literal (hQuote : quote = '"' ∨ quote = '\'') (content : List Char) :
    (translate (units (literal quote content).toList)).bind (read quote.toNat) = some (units content, []) := by
  have hNoBackslash : quote.toNat ≠ '\\'.toNat := by rcases hQuote with rfl | rfl <;> decide
  have hUnits : units (literal quote content).toList =
      quote.toNat :: (units (content.flatMap fun c => (escapeLiteral quote c).toList) ++ [quote.toNat]) := by
    have hSingle : encode quote = [quote.toNat] := by rcases hQuote with rfl | rfl <;> decide
    simp [literal, units, String.toList_join, List.flatMap_map, hSingle]
  rw [hUnits]
  exact (denotes_content hQuote content).read hNoBackslash

/-! ### The text between the quotes -/

/-- The text has no quote of its own: a backslash takes the character after it along, and no quote stands elsewhere. -/
def Guarded (quote : Char) : List Char → Prop
  | '\\' :: _ :: rest => Guarded quote rest
  | c :: rest => c ≠ '\\' ∧ c ≠ quote ∧ Guarded quote rest
  | [] => True

/-- The text stays in its line and has no quote of its own, as far as the code goes. -/
structure Fenced (quote : Char) (code : List Char) : Prop where
  oneLine : ∀ c ∈ code, c ≠ '\n' ∧ c ≠ '\r'
  guarded : ∀ {rest}, Guarded quote rest → Guarded quote (code ++ rest)

theorem fenced_nil : Fenced quote [] := ⟨by simp, id⟩

/-- Codes that keep to the line and the quotes do so together. -/
theorem Fenced.append {first second : List Char} (fenced : Fenced quote first) (next : Fenced quote second) :
    Fenced quote (first ++ second) where
  oneLine := List.forall_mem_append.mpr ⟨fenced.oneLine, next.oneLine⟩
  guarded := by
    intro rest hRest
    rw [List.append_assoc]
    exact fenced.guarded (next.guarded hRest)

theorem fenced_flatMap {α : Type} {items : List α} {write : α → List Char}
    (hItems : ∀ item ∈ items, Fenced quote (write item)) : Fenced quote (items.flatMap write) := by
  induction items with
  | nil => exact fenced_nil
  | cons item items ih =>
      obtain ⟨hItem, hItems⟩ := List.forall_mem_cons.mp hItems
      rw [List.flatMap_cons]
      exact hItem.append (ih hItems)

/-- A backslash takes along what would end the literal. -/
theorem fenced_escape (hLine : c ≠ '\n' ∧ c ≠ '\r') : Fenced quote ['\\', c] where
  oneLine := by simpa using hLine
  guarded := id

/-- A plain character is neither a backslash nor a quote. -/
theorem fenced_single (hBackslash : c ≠ '\\') (hQuote : c ≠ quote) (hLine : c ≠ '\n' ∧ c ≠ '\r') :
    Fenced quote [c] where
  oneLine := by simpa using hLine
  guarded := by
    intro rest hRest
    rw [List.singleton_append, Guarded]
    · exact ⟨hBackslash, hQuote, hRest⟩
    · exact fun _ _ hSame => absurd hSame hBackslash

theorem fenced_digit (hQuote : quote = '"' ∨ quote = '\'') {n : Nat} (hDigit : n < 16) :
    Fenced quote [n.digitChar] := by
  have hOther : ∀ n < 16, n.digitChar ≠ '\\' ∧ (n.digitChar ≠ '"' ∧ n.digitChar ≠ '\'') ∧
      n.digitChar ≠ '\n' ∧ n.digitChar ≠ '\r' := by decide
  obtain ⟨hBackslash, hQuotes, hLine⟩ := hOther n hDigit
  refine fenced_single hBackslash ?_ hLine
  rcases hQuote with rfl | rfl
  · exact hQuotes.1
  · exact hQuotes.2

/-- The digits of an escape end no literal. -/
theorem fenced_unitEscape (hQuote : quote = '"' ∨ quote = '\'') {unit : Nat} (hUnit : unit < 0x10000) :
    Fenced quote (unitEscape unit).toList := by
  have hDigit : ∀ n, Fenced quote [(n % 16).digitChar] := fun n => fenced_digit hQuote (Nat.mod_lt n (by decide))
  have hFirst : Fenced quote [(unit / 0x1000).digitChar] := fenced_digit hQuote (by omega)
  rw [toList_unitEscape hUnit]
  exact (fenced_escape (by decide)).append (hFirst.append ((hDigit _).append ((hDigit _).append (hDigit _))))

/-- In whichever way a character is written, it ends no literal. -/
theorem Written.fenced {code : List Char} (written : Written quote c code) (hQuote : quote = '"' ∨ quote = '\'') :
    Fenced quote code := by
  cases written with
  | named hNamed =>
      have hLine : ∀ entry ∈ letterEscapes, entry.1 ≠ '\n' ∧ entry.1 ≠ '\r' := by decide
      exact fenced_escape (hLine _ hNamed)
  | numbered inert => exact fenced_flatMap fun unit hUnit => fenced_unitEscape hQuote (inert unit hUnit).single
  | plain inert =>
      obtain ⟨-, hBackslash, hSame, hLine⟩ := inert
      simp only [ne_eq, Char.toNat_inj, not_or] at hBackslash hSame hLine
      exact fenced_single hBackslash hSame hLine

/-- The text of a string is one literal: between its quotes there is neither an end of a line nor a quote that is not
escaped, and it is read as the units of the string. -/
theorem string_reads_back (depth : Nat) (value : String) :
    ∃ inner, (Code.text depth (.string value)).toList = '"' :: (inner ++ ['"']) ∧
      (∀ c ∈ inner, c ≠ '\n' ∧ c ≠ '\r') ∧ Guarded '"' inner ∧
      (translate (units (Code.text depth (.string value)).toList)).bind (read '"'.toNat) =
        some (units value.toList, []) := by
  have hFenced : Fenced '"' (value.toList.flatMap fun c => (escapeLiteral '"' c).toList) :=
    fenced_flatMap fun c _ => (written_escapeLiteral (.inl rfl) c).fenced (.inl rfl)
  have hText : Code.text depth (.string value) = literal '"' value.toList := by rw [Code.text]
  refine ⟨_, ?_, hFenced.oneLine, ?_, ?_⟩
  · rw [hText]
    simp [literal, String.toList_join, List.flatMap_map]
  · simpa using hFenced.guarded (show Guarded '"' [] from trivial)
  · rw [hText]
    exact read_literal (.inl rfl) value.toList

end Decompiler.Literal
