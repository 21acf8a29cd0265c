import Decompiler.Proofs.Source.Reading

/-!
The text of an expression is taken apart into its tokens, so that the expression is read back from its text.
-/

namespace Decompiler.Source.Expression

variable {expression left right value : Expression} {tail : List Piece} {text : List Char}

/-- The text does not go on with the expression before it. A point stands behind what binds tightly, but no number. -/
def Follows (expression : Expression) (text : List Char) : Prop :=
  Apart text ∧ (text.head? = some '.' → 16 ≤ expression.strength ∧ expression.isNumber = false)

/-- No token of the expression goes on into another one. -/
def Writes (expression : Expression) : Prop :=
  ∀ tail : List Piece, Spelled tail → expression.Follows (spell tail) → Spelled (expression.pieces ++ tail)

theorem apart_cons {c : Char} (hPart : isWordPart c = false) (rest : List Char) : Apart (c :: rest) :=
  fun _ hNext => Option.some.inj hNext ▸ hPart

/-- Any separator but a point ends an expression. -/
theorem follows_of_apart {c : Char} (hPart : isWordPart c = false) (hPoint : c ≠ '.') (rest : List Char) :
    expression.Follows (c :: rest) :=
  ⟨apart_cons hPart rest, fun hHead => absurd (Option.some.inj hHead) hPoint⟩

/-- What stands behind an expression that binds loosely may stand behind its last operand. -/
theorem Follows.last (follows : expression.Follows text) (hWeak : expression.strength < 16) : value.Follows text :=
  ⟨follows.1, fun hPoint => absurd (follows.2 hPoint).1 (Nat.not_le.mpr hWeak)⟩

/-- A blank ends every expression. -/
theorem follows_blank (expression : Expression) (tail : List Piece) : expression.Follows (spell (none :: tail)) :=
  follows_of_apart (by decide) (by decide) _

/-- In its place an expression is bare or in parentheses, and its tokens stay apart either way. -/
theorem Writes.placed (writes : Writes expression) (place : Nat) (tail : List Piece) (spelled : Spelled tail)
    (hFollows : place ≤ expression.strength → expression.Follows (spell tail)) :
    Spelled (expression.placed place ++ tail) := by
  unfold Expression.placed enclose
  split
  · rw [List.cons_append, List.append_assoc, List.singleton_append]
    exact ⟨stands_alone rfl _, writes _ ⟨stands_alone rfl _, spelled⟩ (follows_of_apart (by decide) (by decide) _)⟩
  · next hStrong => exact writes tail spelled (hFollows (Nat.not_lt.mp hStrong))

/-- An operator between blanks. -/
theorem spelled_between {symbol : Symbol} (hStands : ∀ rest, (Token.symbol symbol).Stands (' ' :: rest))
    (spelled : Spelled tail) : Spelled (between symbol ++ tail) := ⟨hStands _, spelled⟩

/-! ### Names of types -/

/-- A name is a word that is not reserved. -/
theorem isWord_of_isName {name : String} (hName : isName name) : isWord name := (Bool.and_eq_true_iff.mp hName).1

theorem isWord_primitive {name : String} (hPrimitive : name ∈ primitives) : isWord name := by
  have hAll : ∀ name ∈ primitives, isWord name := by decide
  exact hAll name hPrimitive

/-- The points between the parts of a name keep them apart. -/
theorem spelled_selections {names : List String} (hNames : ∀ name ∈ names, isName name) (spelled : Spelled tail)
    (hApart : Apart (spell tail)) :
    Spelled (TypeName.selections names ++ tail) ∧ Apart (spell (TypeName.selections names ++ tail)) := by
  induction names with
  | nil => exact ⟨spelled, hApart⟩
  | cons name names ih =>
      obtain ⟨hName, hNames⟩ := List.forall_mem_cons.mp hNames
      obtain ⟨hSpelled, hApart⟩ := ih hNames
      have hWord := isWord_of_isName hName
      obtain ⟨c, more, hText, hLetter, -⟩ := exists_word hWord
      have hPoint : c ≠ '.' := by
        rintro rfl
        exact absurd hLetter (by decide)
      have hStands : (Token.symbol .point).Stands (name.toList ++ spell (TypeName.selections names ++ tail)) := by
        rw [hText]
        exact stands_point hPoint _
      exact ⟨⟨hStands, stands_word hWord hApart, hSpelled⟩, apart_cons (by decide) _⟩

/-- The name of a type is read as one word after the other. -/
theorem spelled_path {type : TypeName} (wellFormed : type.WellFormed) (spelled : Spelled tail)
    (hApart : Apart (spell tail)) : Spelled (type.path ++ tail) := by
  obtain ⟨hFirst, hMembers⟩ := wellFormed
  obtain ⟨hSpelled, hApart⟩ := spelled_selections hMembers spelled hApart
  exact ⟨stands_word (hFirst.elim isWord_of_isName isWord_primitive) hApart, hSpelled⟩

/-- Pairs of brackets stand for themselves, whatever follows. -/
theorem spelled_brackets (dimensions : Nat) (spelled : Spelled tail) (hApart : Apart (spell tail)) :
    Spelled (TypeName.brackets dimensions ++ tail) ∧ Apart (spell (TypeName.brackets dimensions ++ tail)) := by
  induction dimensions with
  | zero => exact ⟨spelled, hApart⟩
  | succ dimensions ih =>
      exact ⟨⟨stands_alone rfl _, stands_alone rfl _, ih.1⟩, apart_cons (by decide) _⟩

/-! ### Operators in front -/

/-- What an expression starts with makes no longer symbol of an operator in front of it. -/
theorem exists_opening {token : Token} (hOpens : opens token) : ∃ c more, token.spelling = c :: more ∧
    c ≠ '=' ∧ c ≠ '>' ∧ (isMinus token = false → c ≠ '-') := by
  cases token with
  | word word =>
      obtain ⟨c, more, hText, hLetter, -⟩ := exists_word (Bool.and_eq_true_iff.mp hOpens).1
      refine ⟨c, more, hText, ?_, ?_, fun _ => ?_⟩ <;> rintro rfl <;> exact absurd hLetter (by decide)
  | literal number =>
      obtain ⟨c, more, hDigits, hDigit⟩ := Json.exists_toDigits_cons number
      refine ⟨c, more, hDigits, ?_, ?_, fun _ => ?_⟩ <;> rintro rfl <;> exact absurd hDigit (by decide)
  | symbol symbol =>
      have hMember : symbol ∈ [Symbol.openParen, .binary .subtract, .not, .bitNot, .increment, .decrement] :=
        List.contains_iff_mem.mp hOpens
      simp only [List.mem_cons, List.not_mem_nil, or_false] at hMember
      rcases hMember with rfl | rfl | rfl | rfl | rfl | rfl
      · exact ⟨'(', [], rfl, by decide, by decide, fun _ => by decide⟩
      · exact ⟨'-', [], rfl, by decide, by decide, fun hMinus => absurd hMinus (by decide)⟩
      · exact ⟨'!', [], rfl, by decide, by decide, fun _ => by decide⟩
      · exact ⟨'~', [], rfl, by decide, by decide, fun _ => by decide⟩
      · exact ⟨'+', ['+'], rfl, by decide, by decide, fun _ => by decide⟩
      · exact ⟨'-', ['-'], rfl, by decide, by decide, fun hMinus => absurd hMinus (by decide)⟩

/-- In the place of an operand of a minus the expression starts with no minus. -/
theorem starts_placed (wellFormed : value.WellFormed) (hMinus : value.takesMinus = false) :
    Starts 15 (value.placed 14) := by
  obtain ⟨token, rest, hPieces, hOpens, hStrong⟩ := starts_pieces wellFormed
  unfold Expression.placed enclose
  split
  · exact ⟨_, _, rfl, rfl, fun _ => rfl⟩
  · next hPlace =>
      refine ⟨token, rest, hPieces, hOpens, fun _ => ?_⟩
      by_cases hUnary : 15 ≤ value.strength
      · exact hStrong hUnary
      cases value with
      | unary operator value =>
          cases operator with
          | negate | preDecrement => cases hMinus
          | postIncrement | postDecrement => exact absurd (Nat.le_refl 15) hUnary
          | not | bitNot | preIncrement =>
              have hToken := Option.some.inj (List.cons.inj hPieces).1
              exact hToken ▸ rfl
      | number => cases hMinus
      | binary _ operator _ => exact absurd (precedence_le operator).2 (by simp only [strength] at hPlace; omega)
      | _ => simp [strength] at hPlace hUnary

/-! ### Every form of expression -/

/-- A name ends where no letter or digit follows. -/
theorem writes_name {name : String} (hName : isName name) : Writes (.name name) := fun _ spelled follows =>
  ⟨stands_word (isWord_of_isName hName) follows.1, spelled⟩

/-- A number ends where no letter, digit or point follows. A negative one starts with a minus of its own. -/
theorem writes_number (number : Int) : Writes (.number number) := by
  intro tail spelled follows
  have hPoint : (spell tail).head? ≠ some '.' := fun hHead => absurd (follows.2 hHead).2 Bool.true_eq_false.mp
  have hLiteral := stands_literal number.natAbs follows.1 hPoint
  rw [pieces]
  split
  · obtain ⟨c, more, hDigits, hDigit⟩ := Json.exists_toDigits_cons number.natAbs
    have hMinus : (Token.symbol (.binary .subtract)).Stands (Nat.toDigits 10 number.natAbs ++ spell tail) := by
      rw [hDigits]
      refine stands_minus ?_ ?_ ?_ _ <;> rintro rfl <;> exact absurd hDigit (by decide)
    exact ⟨hMinus, hLiteral, spelled⟩
  · exact ⟨hLiteral, spelled⟩

/-- The blanks around an operator keep it from its operands. -/
theorem Writes.binary (writesLeft : Writes left) (writesRight : Writes right) (operator : BinaryOperator) :
    Writes (binary left operator right) := by
  intro tail spelled follows
  have hWeak : operator.precedence < 16 := Nat.lt_of_le_of_lt (precedence_le operator).2 (by decide)
  rw [pieces, List.append_assoc, List.append_assoc]
  refine writesLeft.placed operator.precedence _ ?_ fun _ => follows_blank _ _
  exact spelled_between (stands_binary operator)
    (writesRight.placed (operator.precedence + 1) tail spelled fun _ => follows.last hWeak)

/-- A minus before a minus would be read as a decrement, so that is ruled out. -/
theorem Writes.unary (writes : Writes value) (wellFormed : value.WellFormed) {operator : UnaryOperator}
    (hClear : operator = .negate → value.takesMinus = false) : Writes (unary operator value) := by
  intro tail spelled follows
  rw [pieces]
  split
  · next hFollows =>
      have hAlone : (sign operator).standsAlone := by cases operator <;> first | rfl | cases hFollows
      have hStep : value.Follows (spell (some (.symbol (sign operator)) :: tail)) := by
        cases operator <;> exact follows_of_apart (by decide) (by decide) _
      rw [List.append_assoc, List.singleton_append]
      exact writes.placed 15 _ ⟨stands_alone hAlone _, spelled⟩ fun _ => hStep
  · next hFollows =>
      have hWeak : (Expression.unary operator value).strength < 16 := by simp [strength, hFollows]
      have hSpelled := writes.placed 14 tail spelled fun _ => follows.last hWeak
      refine ⟨?_, hSpelled⟩
      cases operator with
      | negate =>
          obtain ⟨token, rest, hPieces, hOpens, hMinus⟩ := starts_placed wellFormed (hClear rfl)
          obtain ⟨c, more, hText, hEqual, hGreater, hOther⟩ := exists_opening hOpens
          have hOpening : spell (value.placed 14 ++ tail) = c :: (more ++ spell (rest ++ tail)) := by
            rw [hPieces, List.cons_append, spell_token, hText, List.cons_append]
          exact hOpening ▸ stands_minus (hOther (hMinus (Nat.le_refl 15))) hGreater hEqual _
      | not =>
          obtain ⟨token, rest, hPieces, hOpens, -⟩ := (starts_pieces wellFormed).enclose 14
          obtain ⟨c, more, hText, hEqual, -, -⟩ := exists_opening hOpens
          have hOpening : spell (value.placed 14 ++ tail) = c :: (more ++ spell (rest ++ tail)) := by
            rw [Expression.placed, hPieces, List.cons_append, spell_token, hText, List.cons_append]
          exact hOpening ▸ stands_not hEqual _
      | bitNot | preIncrement | preDecrement => exact stands_alone rfl _
      | postIncrement | postDecrement => exact absurd rfl hFollows

/-- An assignment is written like an operator that binds most loosely. -/
theorem Writes.assign (writesTarget : Writes left) (writesValue : Writes value) (operator : AssignOperator) :
    Writes (assign left operator value) := by
  intro tail spelled follows
  rw [pieces, List.append_assoc, List.append_assoc]
  refine writesTarget.placed 16 _ ?_ fun _ => follows_blank _ _
  exact spelled_between (stands_assign operator)
    (writesValue.placed 1 tail spelled fun _ => follows.last (show 1 < 16 by decide))

/-- Its three parts stand apart by a question mark and a colon between blanks. -/
theorem Writes.ternary (writesTest : Writes left) (writesTrue : Writes right) (writesFalse : Writes value) :
    Writes (ternary left right value) := by
  intro tail spelled follows
  simp only [pieces, List.append_assoc]
  refine writesTest.placed 3 _ ?_ fun _ => follows_blank _ _
  refine spelled_between stands_question (writesTrue.placed 3 _ ?_ fun _ => follows_blank _ _)
  exact spelled_between stands_colon (writesFalse.placed 2 tail spelled fun _ => follows.last (show 2 < 16 by decide))

/-- The parentheses of a cast hold a type, so they are not those of a value. -/
theorem Writes.cast (writes : Writes value) {type : String} (hType : type ∈ primitives) :
    Writes (cast type value) := by
  intro tail spelled follows
  have hSpelled := writes.placed 14 tail spelled fun _ => follows.last (show 13 < 16 by decide)
  exact ⟨stands_alone rfl _, stands_word (isWord_primitive hType) (apart_cons (by decide) _), stands_alone rfl _,
    hSpelled⟩

/-- The type behind the word ends the expression. -/
theorem Writes.instanceOf (writes : Writes value) {type : TypeName} (wellFormed : type.WellFormed) :
    Writes (instanceOf value type) := by
  intro tail spelled follows
  rw [pieces, List.append_assoc, List.append_assoc, TypeName.pieces, List.append_assoc]
  obtain ⟨hSpelled, hApart⟩ := spelled_brackets type.dimensions spelled follows.1
  have hType := spelled_path wellFormed hSpelled hApart
  refine writes.placed 10 _ ?_ fun _ => follows_blank _ _
  exact ⟨stands_word (by decide) (apart_cons (by decide) _), hType⟩

/-- The brackets close the index. -/
theorem Writes.element (writesArray : Writes left) (writesIndex : Writes right) : Writes (element left right) := by
  intro tail spelled _
  simp only [pieces, List.append_assoc, List.singleton_append]
  have hIndex := writesIndex.placed 0 (some (.symbol .closeBracket) :: tail) ⟨stands_alone rfl _, spelled⟩
    fun _ => follows_of_apart (by decide) (by decide) _
  exact writesArray.placed 16 _ ⟨stands_alone rfl _, hIndex⟩ fun _ => follows_of_apart (by decide) (by decide) _

/-- The point behind a number would be read as a part of it, so numbers are ruled out. -/
theorem Writes.length (writes : Writes left) (hClear : left.isNumber = false) : Writes (length left) := by
  intro tail spelled follows
  rw [pieces, List.append_assoc]
  refine writes.placed 16 _ ⟨stands_point (by decide) _, stands_word (by decide) follows.1, spelled⟩ fun hStrong => ?_
  exact ⟨apart_cons (by decide) _, fun _ => ⟨hStrong, hClear⟩⟩

/-- The length stands in the first brackets behind the type. -/
theorem Writes.newArray (writes : Writes value) {type : TypeName} (wellFormed : type.WellFormed) :
    Writes (newArray type value) := by
  intro tail spelled _
  simp only [pieces, List.append_assoc, List.singleton_append]
  have hSize := writes.placed 0 (some (.symbol .closeBracket) :: tail) ⟨stands_alone rfl _, spelled⟩
    fun _ => follows_of_apart (by decide) (by decide) _
  refine ⟨stands_word (by decide) (apart_cons (by decide) _), ?_⟩
  exact spelled_path wellFormed ⟨stands_alone rfl _, hSize⟩ (apart_cons (by decide) _)

/-- By induction on the expression, with a lemma for each constructor. -/
theorem writes_pieces (wellFormed : expression.WellFormed) (clear : expression.Clear) : Writes expression := by
  induction expression with
  | name text => exact writes_name wellFormed
  | number value => exact writes_number value
  | binary left operator right ihLeft ihRight =>
      exact (ihLeft wellFormed.1 clear.1).binary (ihRight wellFormed.2 clear.2.1) operator
  | unary operator value ih => exact (ih wellFormed.1 clear.1).unary wellFormed.1 clear.2
  | assign target operator value ihTarget ihValue =>
      exact (ihTarget wellFormed.1 clear.1).assign (ihValue wellFormed.2.2 clear.2) operator
  | ternary test onTrue onFalse ihTest ihTrue ihFalse =>
      exact (ihTest wellFormed.1 clear.1).ternary (ihTrue wellFormed.2.1 clear.2.1) (ihFalse wellFormed.2.2 clear.2.2)
  | cast type value ih => exact (ih wellFormed.2 clear).cast wellFormed.1
  | instanceOf value type ih => exact (ih wellFormed.1 clear).instanceOf wellFormed.2
  | element array index ihArray ihIndex =>
      exact (ihArray wellFormed.1 clear.1).element (ihIndex wellFormed.2 clear.2.1)
  | length array ih => exact (ih wellFormed clear.1).length clear.2
  | newArray type size ih => exact (ih wellFormed.2.2 clear).newArray wellFormed.1

/-- A well-formed expression that is not written as something else is read back from its text. -/
theorem read_text (wellFormed : expression.WellFormed) (clear : expression.Clear) :
    read (String.ofList (spell expression.pieces)) = some expression := by
  have hSpelled := writes_pieces wellFormed clear [] trivial ⟨nofun, nofun⟩
  have hStops : Stops 0 [] := nofun
  have hTokens := (reads_pieces wellFormed clear).whole wellFormed 0
    (expression.pieces.reduceOption.length + 1) (Nat.le_refl 0) (by rw [row_of_le (Nat.zero_le _)]; omega) hStops
  rw [List.append_nil] at hSpelled
  rw [row_of_le (Nat.zero_le _), List.append_nil] at hTokens
  rw [read, String.toList_ofList, tokens_spell hSpelled, Option.bind_eq_bind, Option.bind_some, hTokens]

end Decompiler.Source.Expression
