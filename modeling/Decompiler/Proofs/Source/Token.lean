import Decompiler.Operand.Operator
import Decompiler.Proofs.Json.Reading
import Mathlib.Data.List.ReduceOption

/-!
The tokens of source text: words, decimal literals and symbols, each as long as it can be. Text that is put together of
tokens and blanks is taken apart into the same tokens, as long as no token goes on into what stands behind it.
-/

namespace Decompiler.Source

/-- The symbols of expressions, with those of the operators. -/
inductive Symbol where
  | openParen
  | closeParen
  | openBracket
  | closeBracket
  | point
  | question
  | colon
  | not
  | bitNot
  | increment
  | decrement
  | binary (operator : BinaryOperator)
  | assign (operator : AssignOperator)
  /-- What no expression here is written with. -/
  | other (text : String)
  deriving DecidableEq

namespace Symbol

def text : Symbol → String
  | openParen => "("
  | closeParen => ")"
  | openBracket => "["
  | closeBracket => "]"
  | point => "."
  | question => "?"
  | colon => ":"
  | not => "!"
  | bitNot => "~"
  | increment => "++"
  | decrement => "--"
  | binary operator => operator.symbol
  | assign operator => operator.symbol
  | other text => text

/-- Longer symbols stand before shorter ones. Comments start like symbols. -/
def all : List Symbol := [
  .assign .unsignedShiftRight,
  .binary .unsignedShiftRight, .assign .shiftLeft, .assign .shiftRight, .other "...",
  .increment, .decrement, .binary .conditionalAnd, .binary .conditionalOr, .binary .equal, .binary .notEqual,
  .binary .lessEqual, .binary .greaterEqual, .binary .shiftLeft, .binary .shiftRight, .assign .add, .assign .subtract,
  .assign .multiply, .assign .divide, .assign .remainder, .assign .bitAnd, .assign .bitOr, .assign .bitXor,
  .other "->", .other "::", .other "//", .other "/*",
  .openParen, .closeParen, .openBracket, .closeBracket, .point, .question, .colon, .not, .bitNot, .binary .add,
  .binary .subtract, .binary .multiply, .binary .divide, .binary .remainder, .binary .less, .binary .greater,
  .binary .bitAnd, .binary .bitOr, .binary .bitXor, .assign .assign,
  .other "\x7b", .other "\x7d", .other ";", .other ",", .other "@"]

/-- The longest symbol that the text starts with. -/
def longest? (text : List Char) : Option Symbol := all.find? fun symbol => symbol.text.toList.isPrefixOf text

end Symbol

/-- What text is taken apart into. -/
inductive Token where
  | word (text : String)
  | literal (value : Nat)
  | symbol (sign : Symbol)
  deriving DecidableEq

/-- Beyond ASCII every character counts as a letter. -/
def isLetter (c : Char) : Bool := c.isAlpha || c == '_' || c == '$' || 0x80 ≤ c.toNat

def isWordPart (c : Char) : Bool := isLetter c || c.isDigit

/-- A letter, with letters and digits behind it. -/
def isWord (text : String) : Bool :=
  match text.toList with
  | c :: rest => isLetter c && rest.all isWordPart
  | [] => false

/-- The first token of the text, and the rest. A number that goes on as another kind of literal is none. -/
def readToken : List Char → Option (Token × List Char)
  | [] => none
  | c :: rest =>
    if isLetter c then
      some (.word (String.ofList (c :: rest.takeWhile isWordPart)), rest.dropWhile isWordPart)
    else if c.isDigit then
      let digits := c :: rest.takeWhile Char.isDigit
      let after := rest.dropWhile Char.isDigit
      if (c == '0' && digits.length != 1) || after.head?.any fun next => isWordPart next || next == '.' then none
      else some (.literal (Nat.ofDigitChars 10 digits 0), after)
    else (Symbol.longest? (c :: rest)).map fun symbol => (.symbol symbol, (c :: rest).drop symbol.text.toList.length)

/-- Takes a text apart, in at most so many steps. -/
def tokensWithin : Nat → List Char → Option (List Token)
  | _, [] => some []
  | 0, _ :: _ => none
  | fuel + 1, c :: rest =>
    if c = ' ' then tokensWithin fuel rest
    else do
      let (token, after) ← readToken (c :: rest)
      let tokens ← tokensWithin fuel after
      return token :: tokens

/-- As many steps as there are characters are enough. -/
def tokens (text : List Char) : Option (List Token) := tokensWithin text.length text

/-! ### Spelling -/

/-- The text of a token. -/
def Token.spelling : Token → List Char
  | .word text => text.toList
  | .literal value => Nat.toDigits 10 value
  | .symbol sign => sign.text.toList

/-- A token, or a blank. -/
abbrev Piece := Option Token

/-- The text of tokens and blanks in a row. -/
def spell (pieces : List Piece) : List Char := pieces.flatMap fun piece => piece.elim [' '] Token.spelling

/-- The token is what is read first of its text and what stands behind it. -/
structure Token.Stands (token : Token) (rest : List Char) : Prop where
  start : token.spelling.head?.any (· != ' ') = true
  reads : readToken (token.spelling ++ rest) = some (token, rest)

/-- No token goes on into what stands behind it. -/
def Spelled : List Piece → Prop
  | [] => True
  | none :: rest => Spelled rest
  | some token :: rest => token.Stands (spell rest) ∧ Spelled rest

variable {token : Token} {pieces more : List Piece} {rest : List Char}

@[simp] theorem spell_nil : spell [] = [] := rfl

@[simp] theorem spell_blank : spell (none :: pieces) = ' ' :: spell pieces := rfl

@[simp] theorem spell_token : spell (some token :: pieces) = token.spelling ++ spell pieces := rfl

@[simp] theorem spell_append (pieces more : List Piece) : spell (pieces ++ more) = spell pieces ++ spell more :=
  List.flatMap_append

@[simp] theorem spelled_blank : Spelled (none :: pieces) ↔ Spelled pieces := Iff.rfl

@[simp] theorem spelled_token : Spelled (some token :: pieces) ↔ token.Stands (spell pieces) ∧ Spelled pieces := Iff.rfl

/-- Each step takes one token off the text, or a blank. -/
theorem tokensWithin_spell (spelled : Spelled pieces) {fuel : Nat} (hFuel : (spell pieces).length ≤ fuel) :
    tokensWithin fuel (spell pieces) = some pieces.reduceOption := by
  induction pieces generalizing fuel with
  | nil =>
      rw [spell_nil, tokensWithin]
      rfl
  | cons piece pieces ih =>
      cases piece with
      | none =>
          rw [spell_blank, List.length_cons] at hFuel
          obtain ⟨fuel, rfl⟩ := Nat.exists_eq_add_of_lt (Nat.lt_of_lt_of_le (Nat.zero_lt_succ _) hFuel)
          rw [spell_blank, Nat.zero_add, tokensWithin, if_pos rfl, ih spelled (by omega)]
          rfl
      | some token =>
          obtain ⟨⟨hStart, hReads⟩, spelled⟩ := spelled
          obtain ⟨c, more, hSpelling⟩ : ∃ c more, token.spelling = c :: more :=
            List.exists_cons_of_ne_nil fun hNil => by simp [hNil] at hStart
          have hBlank : c ≠ ' ' := by simpa [hSpelling] using hStart
          rw [spell_token, hSpelling, List.cons_append, List.length_cons, List.length_append] at hFuel
          obtain ⟨fuel, rfl⟩ := Nat.exists_eq_add_of_lt (Nat.lt_of_lt_of_le (Nat.zero_lt_succ _) hFuel)
          rw [hSpelling, List.cons_append] at hReads
          rw [spell_token, hSpelling, List.cons_append, Nat.zero_add, tokensWithin, if_neg hBlank, hReads]
          simp only [Option.bind_eq_bind, Option.bind_some]
          rw [ih spelled (by omega)]
          rfl

/-- Text is taken apart into the tokens that it was put together of. -/
theorem tokens_spell (spelled : Spelled pieces) : tokens (spell pieces) = some pieces.reduceOption :=
  tokensWithin_spell spelled (Nat.le_refl _)

/-! ### Words -/

/-- The text does not go on with the word or number before it. -/
def Apart (rest : List Char) : Prop := ∀ c ∈ rest.head?, isWordPart c = false

/-- What is kept up to a character that is not is the front. -/
theorem span_apart {keep : Char → Bool} {front : List Char} (hFront : ∀ c ∈ front, keep c = true)
    (hRest : ∀ c ∈ rest.head?, keep c = false) :
    (front ++ rest).takeWhile keep = front ∧ (front ++ rest).dropWhile keep = rest := by
  have hStop : rest.takeWhile keep = [] ∧ rest.dropWhile keep = rest := by
    cases rest with
    | nil => exact ⟨rfl, rfl⟩
    | cons c rest => simp [hRest c rfl]
  rw [List.takeWhile_append_of_pos hFront, List.dropWhile_append_of_pos hFront, hStop.1, hStop.2, List.append_nil]
  exact ⟨rfl, rfl⟩

/-- A word starts with a letter and goes on with letters and digits. -/
theorem exists_word {text : String} (hWord : isWord text) :
    ∃ c more, text.toList = c :: more ∧ isLetter c = true ∧ ∀ next ∈ more, isWordPart next = true := by
  unfold isWord at hWord
  split at hWord
  · next c more hText =>
      obtain ⟨hFirst, hMore⟩ := Bool.and_eq_true_iff.mp hWord
      exact ⟨c, more, hText, hFirst, List.all_eq_true.mp hMore⟩
  · cases hWord

/-- A word is read as long as letters and digits follow, so it ends where they do. -/
theorem stands_word {text : String} (hWord : isWord text) (hRest : Apart rest) : (Token.word text).Stands rest := by
  obtain ⟨c, more, hText, hFirst, hMore⟩ := exists_word hWord
  obtain ⟨hTake, hDrop⟩ := span_apart hMore hRest
  have hBlank : c ≠ ' ' := by
    rintro rfl
    exact absurd hFirst (by decide)
  constructor
  · simpa [Token.spelling, hText] using hBlank
  · rw [Token.spelling, hText, List.cons_append, readToken, if_pos hFirst, hTake, hDrop, ← hText, String.ofList_toList]

/-! ### Literals -/

/-- The first character tells a number from a word. -/
theorem not_isLetter_of_isDigit {c : Char} (hDigit : c.isDigit = true) : isLetter c = false := by
  have hDigits : ∀ code < 58, 48 ≤ code → isLetter (Char.ofNat code) = false := by decide
  obtain ⟨hFrom, hTo⟩ := Char.isDigit_iff_toNat.mp hDigit
  exact Char.ofNat_toNat c ▸ hDigits c.toNat (Nat.lt_succ_of_le hTo) hFrom

/-- A number is read as long as no letter, no digit and no point follows. -/
theorem stands_literal (n : Nat) (hRest : Apart rest) (hPoint : rest.head? ≠ some '.') :
    (Token.literal n).Stands rest := by
  obtain ⟨c, more, hDigits, hFirst⟩ := Json.exists_toDigits_cons n
  have hAll : ∀ next ∈ c :: more, next.isDigit = true := fun next hNext =>
    Nat.isDigit_of_mem_toDigits (by decide) (by decide) (hDigits ▸ hNext)
  have hStop : ∀ next ∈ rest.head?, next.isDigit = false := fun next hNext =>
    (Bool.or_eq_false_iff.mp (hRest next hNext)).2
  obtain ⟨hTake, hDrop⟩ := span_apart (List.forall_mem_cons.mp hAll).2 hStop
  have hValue : Nat.ofDigitChars 10 (c :: more) 0 = n := hDigits ▸ Nat.ofDigitChars_ten_toDigits
  have hZero : ¬(c = '0' ∧ (c :: more).length ≠ 1) := by
    rintro ⟨rfl, hMore⟩
    by_cases hSmall : n < 10
    · rw [← hDigits, Nat.toDigits_of_lt_base hSmall] at hMore
      exact hMore rfl
    · exact Json.head?_toDigits_ne (n := n) (by omega) (by rw [hDigits, List.head?_cons])
  have hAfter : rest.head?.any (fun next => isWordPart next || next == '.') = false := by
    cases hHead : rest.head? with
    | none => rfl
    | some next =>
        have hNext : next ≠ '.' := by
          rintro rfl
          exact hPoint hHead
        simp [hRest next hHead, hNext]
  have hBlank : c ≠ ' ' := by
    rintro rfl
    exact absurd hFirst (by decide)
  constructor
  · simpa [Token.spelling, hDigits] using hBlank
  · rw [Token.spelling, hDigits, List.cons_append, readToken, if_neg (by simp [not_isLetter_of_isDigit hFirst]),
      if_pos hFirst]
    dsimp only
    rw [hTake, hDrop, hAfter, if_neg (by simpa using hZero), hValue]

/-! ### Symbols -/

/-- Behind an operator stands a blank, so no longer symbol is read. -/
theorem stands_binary (operator : BinaryOperator) (rest : List Char) :
    (Token.symbol (.binary operator)).Stands (' ' :: rest) := by
  cases operator <;> exact ⟨rfl, rfl⟩

/-- Behind an assignment operator stands a blank, so no longer symbol is read. -/
theorem stands_assign (operator : AssignOperator) (rest : List Char) :
    (Token.symbol (.assign operator)).Stands (' ' :: rest) := by
  cases operator <;> exact ⟨rfl, rfl⟩

theorem stands_question (rest : List Char) : (Token.symbol .question).Stands (' ' :: rest) :=
  ⟨rfl, rfl⟩

theorem stands_colon (rest : List Char) : (Token.symbol .colon).Stands (' ' :: rest) :=
  ⟨rfl, rfl⟩

/-- No longer symbol starts with the symbol. -/
def Symbol.standsAlone : Symbol → Bool
  | .openParen | .closeParen | .openBracket | .closeBracket | .bitNot | .increment | .decrement => true
  | _ => false

/-- A symbol that starts no longer one is read wherever it stands. -/
theorem stands_alone {symbol : Symbol} (hAlone : symbol.standsAlone) (rest : List Char) :
    (Token.symbol symbol).Stands rest := by
  cases symbol <;> first | exact ⟨rfl, rfl⟩ | exact absurd hAlone Bool.false_ne_true

/-- What starts like no letter and no digit is read as a symbol. -/
theorem stands_longest {symbol : Symbol} (first : Char) (hText : symbol.text.toList = [first])
    (hFirst : isWordPart first = false) (hBlank : first ≠ ' ')
    (hLongest : Symbol.longest? (first :: rest) = some symbol) :
    (Token.symbol symbol).Stands rest := by
  obtain ⟨hLetter, hDigit⟩ := Bool.or_eq_false_iff.mp hFirst
  constructor
  · simpa [Token.spelling, hText] using hBlank
  · rw [Token.spelling, hText, List.singleton_append, readToken, hLetter, hDigit, hLongest, Option.map_some, hText]
    rfl

/-- A point is read before anything but another point. -/
theorem stands_point {c : Char} (hPoint : c ≠ '.') (rest : List Char) : (Token.symbol .point).Stands (c :: rest) := by
  refine stands_longest '.' rfl (by decide) (by decide) ?_
  have hSymbols : Symbol.longest? ('.' :: c :: rest) =
      [Symbol.other "...", .point].find? fun symbol => symbol.text.toList.isPrefixOf ('.' :: c :: rest) := rfl
  simp [hSymbols, List.find?, Symbol.text, List.isPrefixOf, beq_eq_false_iff_ne.mpr hPoint.symm]

/-- A minus stands before what does not make a longer symbol of it. -/
theorem stands_minus {c : Char} (hMinus : c ≠ '-') (hGreater : c ≠ '>') (hEqual : c ≠ '=') (rest : List Char) :
    (Token.symbol (.binary .subtract)).Stands (c :: rest) := by
  refine stands_longest '-' rfl (by decide) (by decide) ?_
  have hSymbols : Symbol.longest? ('-' :: c :: rest) =
      [Symbol.decrement, .assign .subtract, .other "->", .binary .subtract].find?
        fun symbol => symbol.text.toList.isPrefixOf ('-' :: c :: rest) := rfl
  simp [hSymbols, List.find?, Symbol.text, AssignOperator.symbol, BinaryOperator.symbol, List.isPrefixOf,
    beq_eq_false_iff_ne.mpr hMinus.symm, beq_eq_false_iff_ne.mpr hGreater.symm, beq_eq_false_iff_ne.mpr hEqual.symm]

/-- A negation is read before anything but an equals sign. -/
theorem stands_not {c : Char} (hEqual : c ≠ '=') (rest : List Char) : (Token.symbol .not).Stands (c :: rest) := by
  refine stands_longest '!' rfl (by decide) (by decide) ?_
  have hSymbols : Symbol.longest? ('!' :: c :: rest) =
      [Symbol.binary .notEqual, .not].find? fun symbol => symbol.text.toList.isPrefixOf ('!' :: c :: rest) := rfl
  simp [hSymbols, List.find?, Symbol.text, BinaryOperator.symbol, List.isPrefixOf,
    beq_eq_false_iff_ne.mpr hEqual.symm]

end Decompiler.Source
