import Decompiler.Proofs.Source.Expression

/-!
Expressions are read back from their text. The exceptions are written as something else: two minus signs in a row are a
decrement, and a minus in front of a number is part of it; a pair of brackets behind a new array is its second
dimension; a point behind a number is part of it; and a type takes a less than sign for itself.
-/

namespace Decompiler.Source.Expression

/-- Names are names, what is assigned or stepped is a place, and casts go to primitive types. -/
def WellFormed : Expression → Prop
  | name text => isName text
  | number _ => True
  | binary left _ right => left.WellFormed ∧ right.WellFormed
  | unary operator value => value.WellFormed ∧ (operator.isIncrement → value.isPlace)
  | assign target _ value => target.WellFormed ∧ target.isPlace ∧ value.WellFormed
  | ternary test onTrue onFalse => test.WellFormed ∧ onTrue.WellFormed ∧ onFalse.WellFormed
  | cast type value => type ∈ primitives ∧ value.WellFormed
  | instanceOf value type => value.WellFormed ∧ type.WellFormed
  | element array index => array.WellFormed ∧ index.WellFormed
  | length array => array.WellFormed
  | newArray type size => type.WellFormed ∧ type.dimensions = 0 ∧ size.WellFormed

/-- A minus stands before the expression, or the expression is a number. -/
def takesMinus : Expression → Bool
  | number _ | unary .negate _ | unary .preDecrement _ => true
  | _ => false

/-- A point behind a number would be read as a part of it. -/
def isNumber : Expression → Bool
  | number _ => true
  | _ => false

/-- Brackets behind a new array would be read as its second dimension. -/
def isNewArray : Expression → Bool
  | newArray .. => true
  | _ => false

/-- A less than sign behind a type would be read as a part of it. -/
def isInstanceOf : Expression → Bool
  | instanceOf .. => true
  | _ => false

/-- The expression is not written as something else. -/
def Clear : Expression → Prop
  | name _ | number _ => True
  | binary left operator right => left.Clear ∧ right.Clear ∧ (operator = .less → left.isInstanceOf = false)
  | unary operator value => value.Clear ∧ (operator = .negate → value.takesMinus = false)
  | assign target _ value => target.Clear ∧ value.Clear
  | ternary test onTrue onFalse => test.Clear ∧ onTrue.Clear ∧ onFalse.Clear
  | cast _ value => value.Clear
  | instanceOf value _ => value.Clear
  | element array index => array.Clear ∧ index.Clear ∧ array.isNewArray = false
  | length array => array.Clear ∧ array.isNumber = false
  | newArray _ size => size.Clear

variable {expression left right value : Expression} {minimum fuel : Nat} {rest : List Token}

/-! ### How expressions start -/

/-- The token can be the first one of an expression. -/
def opens : Token → Bool
  | .word text => isWord text && !primitives.contains text
  | .literal _ => true
  | .symbol sign => [.openParen, .binary .subtract, .not, .bitNot, .increment, .decrement].contains sign

/-- Two such tokens in a row would be read as one. -/
def isMinus (token : Token) : Bool := token = .symbol (.binary .subtract) || token = .symbol .decrement

/-- What an expression starts with. What binds tightly does not start with a minus. -/
def Starts (strength : Nat) (pieces : List Piece) : Prop :=
  ∃ token rest, pieces = some token :: rest ∧ opens token ∧ (15 ≤ strength → isMinus token = false)

/-- Parentheses start every place. -/
theorem Starts.enclose {strength : Nat} {pieces : List Piece} (starts : Starts strength pieces) (minimum : Nat) :
    Starts minimum (enclose strength minimum pieces) := by
  obtain ⟨token, rest, hPieces, hOpens, hMinus⟩ := starts
  unfold Expression.enclose
  split
  · exact ⟨_, _, rfl, rfl, fun _ => rfl⟩
  · exact ⟨token, rest, hPieces, hOpens, fun hStrong => hMinus (by omega)⟩

/-- What an expression starts with stays the start when more follows. -/
theorem Starts.append {strength strength' : Nat} {pieces : List Piece} (starts : Starts strength pieces)
    (hStrength : 15 ≤ strength' → 15 ≤ strength) (more : List Piece) : Starts strength' (pieces ++ more) := by
  obtain ⟨token, rest, rfl, hOpens, hMinus⟩ := starts
  exact ⟨token, rest ++ more, rfl, hOpens, fun hStrong => hMinus (hStrength hStrong)⟩

theorem primitives_subset_keywords : primitives ⊆ keywords := by decide

/-- Binary operators bind between assignments and unary operators. -/
theorem precedence_le (operator : BinaryOperator) : 3 ≤ operator.precedence ∧ operator.precedence ≤ 12 := by
  cases operator <;> decide

/-- By induction on the expression: its first token is that of its first operand, or its own. -/
theorem starts_pieces (wellFormed : expression.WellFormed) : Starts expression.strength expression.pieces := by
  induction expression with
  | name text =>
      obtain ⟨hWord, hKeyword⟩ := Bool.and_eq_true_iff.mp wellFormed
      have hPrimitive : text ∉ primitives := fun hMember => by simp [primitives_subset_keywords hMember] at hKeyword
      exact ⟨_, _, rfl, by simp [opens, hWord, hPrimitive], fun _ => rfl⟩
  | number value =>
      rw [pieces, strength]
      split
      · exact ⟨_, _, rfl, rfl, fun hStrong => absurd hStrong (by decide)⟩
      · exact ⟨_, _, rfl, rfl, fun _ => rfl⟩
  | binary left operator right ihLeft =>
      have hWeak := (precedence_le operator).2
      rw [pieces, List.append_assoc]
      exact ((ihLeft wellFormed.1).enclose _).append (fun hStrong => by rw [strength] at hStrong; omega) _
  | unary operator value ih =>
      rw [pieces, strength]
      split
      · exact ((ih wellFormed.1).enclose _).append (fun _ => Nat.le_refl _) _
      · exact ⟨_, _, rfl, by cases operator <;> rfl, fun hStrong => absurd hStrong (by decide)⟩
  | assign target operator value ihTarget =>
      rw [pieces, List.append_assoc]
      exact ((ihTarget wellFormed.1).enclose _).append (fun _ => by decide) _
  | ternary test onTrue onFalse ihTest =>
      simp only [pieces, List.append_assoc]
      exact ((ihTest wellFormed.1).enclose _).append (fun hStrong => absurd hStrong (by rw [strength]; decide)) _
  | cast type value => exact ⟨_, _, rfl, rfl, fun hStrong => absurd hStrong (by rw [strength]; decide)⟩
  | instanceOf value type ih =>
      rw [pieces, List.append_assoc]
      exact ((ih wellFormed.1).enclose _).append (fun hStrong => absurd hStrong (by rw [strength]; decide)) _
  | element array index ihArray =>
      simp only [pieces, List.append_assoc]
      exact ((ihArray wellFormed.1).enclose _).append (fun _ => by decide) _
  | length array ih =>
      rw [pieces]
      exact ((ih wellFormed).enclose _).append (fun _ => by decide) _
  | newArray type size => exact ⟨_, _, rfl, rfl, fun _ => rfl⟩

/-! ### Reading on -/

/-- What follows an expression as it is written binds looser than this. -/
def limit : Expression → Nat
  | assign .. => 1
  | ternary .. => 2
  | binary _ operator _ => operator.precedence + 1
  | instanceOf .. => 10
  | cast .. => 14
  | unary operator _ => if operator.followsOperand then 18 else 14
  | number value => if value < 0 then 14 else 18
  | newArray .. => 17
  | _ => 18

/-- What follows binds looser than the level. -/
def Stops (level : Nat) (rest : List Token) : Prop := ∀ next ∈ suffix? rest, next.1.level < level

/-- The expression does not go on with what follows it. -/
def Ends (expression : Expression) (rest : List Token) : Prop :=
  Stops expression.limit rest ∧ (expression.isInstanceOf → rest.head? ≠ some (.symbol (.binary .less)))

/-- What may follow an expression binds no tighter than the expression. -/
theorem strength_le_limit (expression : Expression) : expression.strength ≤ expression.limit := by
  cases expression with
  | number value => simp only [strength, limit]; split_ifs <;> omega
  | unary operator value => simp only [strength, limit]; split_ifs <;> omega
  | _ => simp only [strength, limit]; omega

/-- An operator binds looser than what follows the expression that is its operand. -/
theorem lt_limit {level : Nat} (hLevel : 2 ≤ level ∧ level ≤ 12) (hStrength : level < expression.strength ∨
    3 ≤ expression.strength ∧ level = expression.strength) : level < expression.limit := by
  cases expression with
  | number value => simp only [strength, limit] at *; split_ifs at * <;> omega
  | unary operator value => simp only [strength, limit] at *; split_ifs at * <;> omega
  | _ => simp only [strength, limit] at *; omega

/-- An expression that binds tightly goes on with nothing but brackets, and a new array is the only one that does. -/
theorem limit_of_strong (hStrong : 15 ≤ expression.strength) : 17 ≤ expression.limit ∧
    (expression.isNewArray = false → 18 ≤ expression.limit) := by
  cases expression with
  | number value => simp only [strength, limit] at *; split_ifs at * <;> omega
  | unary operator value => simp only [strength, limit] at *; split_ifs at * <;> omega
  | binary _ operator _ => exact absurd (precedence_le operator).2 (by simp only [strength] at hStrong; omega)
  | newArray => exact ⟨Nat.le_refl 17, fun hFalse => by cases hFalse⟩
  | _ => simp only [strength, limit] at *; omega

/-- What stops a loose place stops a tight one. -/
theorem Stops.mono {level level' : Nat} (stops : Stops level rest) (hLevel : level ≤ level') : Stops level' rest :=
  fun next hNext => Nat.lt_of_lt_of_le (stops next hNext) hLevel

/-- What stops a place for an expression ends the expression in it. -/
theorem Stops.ends {level : Nat} (stops : Stops level rest) (hLevel : level ≤ expression.strength) :
    expression.Ends rest := by
  refine ⟨stops.mono (hLevel.trans expression.strength_le_limit), fun hInstanceOf hLess => ?_⟩
  obtain ⟨next, hRest⟩ := List.head?_eq_some_iff.mp hLess
  have hStops := stops (.binary .less, next) (by rw [hRest]; rfl)
  cases expression with
  | instanceOf value type => exact Nat.lt_irrefl _ (hStops.trans_le hLevel)
  | _ => cases hInstanceOf

/-- The reader stops where nothing that follows binds to the place. -/
theorem readSuffixes_of_stops (stops : Stops minimum rest) (left : Expression) (hFuel : 0 < fuel) :
    readSuffixes fuel minimum left rest = some (left, rest) := by
  obtain ⟨fuel, rfl⟩ := Nat.exists_eq_succ_of_ne_zero hFuel.ne'
  rw [readSuffixes]
  cases hSuffix : suffix? rest with
  | none => rfl
  | some next => simp [stops next hSuffix]

/-- The reader takes what binds to the place, and goes on behind it. -/
theorem readSuffixes_of_suffix {suffix : Suffix} {after : List Token} {together : Expression × List Token}
    (hSuffix : suffix? rest = some (suffix, after)) (hLevel : minimum ≤ suffix.level)
    (hTogether : readSuffix (readOperand fuel) left suffix after = some together) :
    readSuffixes (fuel + 1) minimum left rest = readSuffixes fuel minimum together.1 together.2 := by
  rw [readSuffixes, hSuffix]
  simp [Nat.not_lt.mpr hLevel, hTogether]

/-! ### What is written is read -/

/-- The tokens of an expression in a place that asks for a strength. -/
def row (minimum : Nat) (expression : Expression) : List Token := (expression.placed minimum).reduceOption

/-- The tokens are read as the expression, and then as what follows it. -/
def Reads (expression : Expression) : Prop :=
  ∀ (fuel : Nat) {minimum : Nat} {rest : List Token}, minimum ≤ expression.strength →
    expression.pieces.reduceOption.length < fuel → expression.Ends rest →
    ∃ left, fuel ≤ left + expression.pieces.reduceOption.length ∧
      readOperand fuel minimum (expression.pieces.reduceOption ++ rest) = readSuffixes left minimum expression rest

/-- No expression in parentheses is taken for a cast. -/
theorem castType?_row (wellFormed : expression.WellFormed) (rest : List Token) :
    castType? (expression.pieces.reduceOption ++ rest) = none := by
  obtain ⟨token, more, hPieces, hOpens, -⟩ := starts_pieces wellFormed
  rw [hPieces, List.reduceOption_cons_of_some, List.cons_append, castType?.eq_def]
  split
  · next type after hTokens =>
      obtain ⟨rfl, -⟩ := List.cons.inj hTokens
      obtain ⟨-, hPrimitive⟩ := Bool.and_eq_true_iff.mp hOpens
      simpa using hPrimitive
  · rfl

/-- What binds tightly enough stands bare. -/
theorem row_of_le {place : Nat} (hPlace : place ≤ expression.strength) :
    row place expression = expression.pieces.reduceOption := by
  rw [row, Expression.placed, enclose, if_neg (Nat.not_lt.mpr hPlace)]

/-- What binds too loosely stands in parentheses. -/
theorem row_of_lt {place : Nat} (hPlace : expression.strength < place) : row place expression =
    .symbol .openParen :: (expression.pieces.reduceOption ++ [.symbol .closeParen]) := by
  rw [row, Expression.placed, enclose, if_pos hPlace, List.reduceOption_cons_of_some, List.reduceOption_append]
  rfl

/-- In its place the expression is read as well, in parentheses or without them. -/
theorem Reads.placed (reads : Reads expression) (wellFormed : expression.WellFormed) (place : Nat)
    (fuel : Nat) (hPlace : minimum ≤ place) (hFuel : (row place expression).length < fuel)
    (hEnds : place ≤ expression.strength → expression.Ends rest) :
    ∃ left, fuel ≤ left + (row place expression).length ∧
      readOperand fuel minimum (row place expression ++ rest) = readSuffixes left minimum expression rest := by
  rcases Nat.lt_or_ge expression.strength place with hWeak | hStrong
  · have hStops (after : List Token) : Stops 0 (.symbol .closeParen :: after) := fun next hNext => by cases hNext
    rw [row_of_lt hWeak, List.length_cons, List.length_append, List.length_singleton] at *
    obtain ⟨fuel, rfl⟩ := Nat.exists_eq_succ_of_ne_zero (Nat.ne_zero_of_lt hFuel)
    obtain ⟨left, hLeft, hInner⟩ := reads fuel (Nat.zero_le _) (by omega) ((hStops rest).ends (Nat.zero_le _))
    refine ⟨fuel, by omega, ?_⟩
    rw [List.cons_append, readOperand, List.append_assoc, List.singleton_append, castType?_row wellFormed, hInner,
      readSuffixes_of_stops (hStops rest) _ (by omega)]
    rfl
  · rw [row_of_le hStrong] at *
    exact reads fuel (hPlace.trans hStrong) hFuel (hEnds hStrong)

/-- The expression is all that is read in a place that what follows does not bind to. -/
theorem Reads.whole (reads : Reads expression) (wellFormed : expression.WellFormed) (place : Nat)
    (fuel : Nat) (hPlace : minimum ≤ place) (hFuel : (row place expression).length < fuel)
    (stops : Stops minimum rest) :
    readOperand fuel minimum (row place expression ++ rest) = some (expression, rest) := by
  have hEnds (hEnough : place ≤ expression.strength) : expression.Ends rest := stops.ends (hPlace.trans hEnough)
  obtain ⟨left, hLeft, hRead⟩ := reads.placed wellFormed place fuel hPlace hFuel hEnds
  rw [hRead, readSuffixes_of_stops stops _ (by omega)]

/-- What follows an operand in its place is read with it. -/
theorem Reads.suffix (reads : Reads left) (wellFormed : left.WellFormed) (place fuel : Nat) (suffix : Suffix)
    (tokens : List Token) {after : List Token} {together : Expression} (hSuffix : suffix? tokens = some (suffix, after))
    (hPlace : minimum ≤ place) (hLevel : minimum ≤ suffix.level) (hFuel : (row place left).length + 1 < fuel)
    (hLimit : place ≤ left.strength → suffix.level < left.limit)
    (hLess : left.isInstanceOf → tokens.head? ≠ some (.symbol (.binary .less)))
    (hTogether : ∀ fuel', fuel ≤ fuel' + (row place left).length + 1 →
      readSuffix (readOperand fuel') left suffix after = some (together, rest)) :
    ∃ fuel', fuel ≤ fuel' + (row place left).length + 1 ∧
      readOperand fuel minimum (row place left ++ tokens) = readSuffixes fuel' minimum together rest := by
  have hEnds (hStrong : place ≤ left.strength) : left.Ends tokens := by
    refine ⟨fun next hNext => ?_, hLess⟩
    rw [Option.mem_def, hSuffix] at hNext
    exact Option.some.inj hNext ▸ hLimit hStrong
  obtain ⟨fuel', hLeft, hRead⟩ := reads.placed wellFormed place fuel hPlace (by omega) hEnds
  obtain ⟨fuel', rfl⟩ : ∃ less, fuel' = less + 1 := ⟨fuel' - 1, by omega⟩
  have hFuel' : fuel ≤ fuel' + (row place left).length + 1 := by omega
  exact ⟨fuel', hFuel', hRead.trans (readSuffixes_of_suffix hSuffix hLevel (hTogether fuel' hFuel'))⟩

/-! ### Every form of expression -/

section

attribute [local simp] pieces row Expression.placed readOperand readSuffix

/-- A name is read as one token. -/
theorem reads_name {text : String} (hName : isName text) : Reads (name text) := by
  intro fuel minimum rest _ hFuel _
  obtain ⟨fuel, rfl⟩ := Nat.exists_eq_succ_of_ne_zero (Nat.ne_zero_of_lt hFuel)
  have hNew : text ≠ "new" := by
    rintro rfl
    exact absurd hName (by decide)
  refine ⟨fuel, Nat.le_refl _, ?_⟩
  simp [hNew, hName]

/-- An operator in front of an operand that asks for strength. -/
theorem readOperand_unary (reads : Reads value) (wellFormed : value.WellFormed) (symbol : Symbol)
    {operator : UnaryOperator} (hParen : symbol ≠ .openParen) (hOperator : operator? symbol = some operator)
    (hFuel : (row 14 value).length < fuel) (stops : Stops 14 rest) :
    readOperand (fuel + 1) minimum (.symbol symbol :: (row 14 value ++ rest)) =
      readSuffixes fuel minimum (apply operator value) rest := by
  rw [readOperand.eq_3 _ _ _ _ hParen, hOperator]
  simp only [Option.bind_eq_bind, Option.bind_some]
  rw [reads.whole wellFormed 14 fuel (Nat.le_refl 14) hFuel stops]
  rfl

theorem pieces_natural (number : Nat) : (Expression.number number).pieces = [some (.literal number)] ∧
    (Expression.number number).strength = 16 := by
  have hNatural : ¬(number : Int) < 0 := Int.not_lt.mpr (Int.natCast_nonneg number)
  rw [pieces, strength, if_neg hNatural, if_neg hNatural]
  exact ⟨rfl, rfl⟩

theorem reads_natural (number : Nat) : Reads (.number number) := by
  rw [Reads, (pieces_natural number).1]
  intro fuel minimum rest _ hFuel _
  obtain ⟨fuel, rfl⟩ := Nat.exists_eq_succ_of_ne_zero (Nat.ne_zero_of_lt hFuel)
  refine ⟨fuel, Nat.le_refl _, ?_⟩
  simp

/-- A negative number is read as a minus and a literal, and is put together again. -/
theorem reads_number (number : Int) : Reads (.number number) := by
  rcases Int.eq_nat_or_neg number with ⟨magnitude, rfl | rfl⟩
  · exact reads_natural magnitude
  rcases Nat.eq_zero_or_pos magnitude with rfl | hPositive
  · exact reads_natural 0
  intro fuel minimum rest _ hFuel hEnds
  have hNegative : -(magnitude : Int) < 0 := by omega
  have hTokens : (Expression.number (-magnitude)).pieces.reduceOption =
      .symbol (.binary .subtract) :: row 14 (.number magnitude) := by
    obtain ⟨hPieces, hStrength⟩ := pieces_natural magnitude
    rw [row_of_le (hStrength ▸ by decide), hPieces, pieces, if_pos hNegative, Int.natAbs_neg, Int.natAbs_natCast]
    rfl
  have stops : Stops 14 rest := by simpa only [limit, if_pos hNegative] using hEnds.1
  rw [hTokens, List.length_cons] at hFuel ⊢
  obtain ⟨fuel, rfl⟩ := Nat.exists_eq_succ_of_ne_zero (Nat.ne_zero_of_lt hFuel)
  refine ⟨fuel, by omega, ?_⟩
  exact readOperand_unary (reads_natural magnitude) trivial (.binary .subtract) (by decide) rfl
    (Nat.lt_of_succ_lt_succ hFuel) stops

/-- Operators of one strength are grouped to the left. A less than sign behind a type is ruled out. -/
theorem Reads.binary (readsLeft : Reads left) (readsRight : Reads right) (wellFormedLeft : left.WellFormed)
    (wellFormedRight : right.WellFormed) {operator : BinaryOperator}
    (hClear : operator = .less → left.isInstanceOf = false) : Reads (binary left operator right) := by
  intro fuel minimum rest hMinimum hFuel hEnds
  have hTokens : (Expression.binary left operator right).pieces.reduceOption =
      row operator.precedence left ++ .symbol (.binary operator) :: row (operator.precedence + 1) right := by
    simp [between, List.reduceOption_append]
  have hPrecedence := precedence_le operator
  have hLimit (hStrong : operator.precedence ≤ left.strength) : operator.precedence < left.limit :=
    lt_limit ⟨by omega, hPrecedence.2⟩ (by omega)
  have hLess (hInstanceOf : left.isInstanceOf) : operator ≠ .less := fun hOperator =>
    absurd hInstanceOf (by simp [hClear hOperator])
  rw [hTokens, List.length_append, List.length_cons] at hFuel ⊢
  obtain ⟨fuel', hFuel', hRead⟩ := readsLeft.suffix wellFormedLeft operator.precedence fuel (.binary operator)
    (.symbol (.binary operator) :: (row (operator.precedence + 1) right ++ rest)) rfl hMinimum hMinimum (by omega)
    hLimit (fun hInstanceOf => by simpa using hLess hInstanceOf) fun fuel' hFuel' => by
      rw [readSuffix, readsRight.whole wellFormedRight (operator.precedence + 1) fuel' (Nat.le_refl _) (by omega)
        hEnds.1]
      rfl
  exact ⟨fuel', by omega, by simpa using hRead⟩

/-- An operator in front is read before its operand. A minus in front of a minus or a number is ruled out. -/
theorem Reads.unary (reads : Reads value) (wellFormed : value.WellFormed) {operator : UnaryOperator}
    (hClear : operator = .negate → value.takesMinus = false) : Reads (unary operator value) := by
  intro fuel minimum rest hMinimum hFuel hEnds
  cases hFollows : operator.followsOperand with
  | true =>
      have hTokens : (Expression.unary operator value).pieces.reduceOption =
          row 15 value ++ [.symbol (sign operator)] := by
        simp [hFollows, List.reduceOption_append]
      have hSuffix : suffix? (.symbol (sign operator) :: rest) = some (.step operator, rest) := by
        cases operator <;> first | rfl | cases hFollows
      rw [strength, hFollows, if_pos rfl] at hMinimum
      rw [hTokens, List.length_append, List.length_singleton] at hFuel ⊢
      obtain ⟨fuel', hFuel', hRead⟩ := reads.suffix wellFormed 15 fuel (.step operator)
        (.symbol (sign operator) :: rest) hSuffix hMinimum hMinimum hFuel
        (fun hStrong => Nat.lt_of_succ_lt (limit_of_strong hStrong).1)
        (fun _ => by cases operator <;> simp [sign]) fun _ _ => rfl
      exact ⟨fuel', by omega, by simpa using hRead⟩
  | false =>
      have hTokens : (Expression.unary operator value).pieces.reduceOption =
          .symbol (sign operator) :: row 14 value := by
        simp [hFollows]
      have hOperator : operator? (sign operator) = some operator := by
        cases operator <;> first | rfl | cases hFollows
      have hApply : apply operator value = .unary operator value := by
        cases operator <;> cases value <;> first | rfl | cases hClear rfl
      have stops : Stops 14 rest := by simpa [limit, hFollows] using hEnds.1
      rw [hTokens, List.length_cons] at hFuel ⊢
      obtain ⟨fuel, rfl⟩ := Nat.exists_eq_succ_of_ne_zero (Nat.ne_zero_of_lt hFuel)
      refine ⟨fuel, by omega, ?_⟩
      rw [List.cons_append, readOperand_unary reads wellFormed _ (by cases operator <;> decide) hOperator
        (Nat.lt_of_succ_lt_succ hFuel) stops, hApply]

theorem Reads.assign (readsTarget : Reads left) (readsValue : Reads value) (wellFormedTarget : left.WellFormed)
    (hPlace : left.isPlace) (wellFormedValue : value.WellFormed) {operator : AssignOperator} :
    Reads (assign left operator value) := by
  intro fuel minimum rest hMinimum hFuel hEnds
  have hTokens : (Expression.assign left operator value).pieces.reduceOption =
      row 16 left ++ .symbol (.assign operator) :: row 1 value := by
    simp [between, List.reduceOption_append]
  have hLimit (hStrong : 16 ≤ left.strength) : 1 < left.limit :=
    Nat.lt_of_lt_of_le (by decide) (limit_of_strong (Nat.le_of_succ_le hStrong)).1
  rw [hTokens, List.length_append, List.length_cons] at hFuel ⊢
  obtain ⟨fuel', hFuel', hRead⟩ := readsTarget.suffix wellFormedTarget 16 fuel (.assign operator)
    (.symbol (.assign operator) :: (row 1 value ++ rest)) rfl (hMinimum.trans (show 1 ≤ 16 by decide)) hMinimum
    (by omega) hLimit (fun _ => by simp) fun fuel' hFuel' => by
      rw [readSuffix, if_pos hPlace, readsValue.whole wellFormedValue 1 fuel' (Nat.le_refl 1) (by omega) hEnds.1]
      rfl
  exact ⟨fuel', by omega, by simpa using hRead⟩

theorem Reads.cast (reads : Reads value) (wellFormed : value.WellFormed) {type : String} (hType : type ∈ primitives) :
    Reads (cast type value) := by
  intro fuel minimum rest _ hFuel hEnds
  have hTokens : (Expression.cast type value).pieces.reduceOption =
      .symbol .openParen :: .word type :: .symbol .closeParen :: row 14 value := by
    simp
  rw [hTokens, List.length_cons] at hFuel ⊢
  obtain ⟨fuel, rfl⟩ := Nat.exists_eq_succ_of_ne_zero (Nat.ne_zero_of_lt hFuel)
  refine ⟨fuel, by omega, ?_⟩
  simp only [List.length_cons] at hFuel
  rw [List.cons_append, readOperand, List.cons_append, List.cons_append, castType?, if_pos hType]
  dsimp only
  rw [reads.whole wellFormed 14 fuel (Nat.le_refl 14) (by omega) hEnds.1]
  rfl

theorem Reads.element (readsArray : Reads left) (readsIndex : Reads right) (wellFormedArray : left.WellFormed)
    (wellFormedIndex : right.WellFormed) (hClear : left.isNewArray = false) : Reads (element left right) := by
  intro fuel minimum rest hMinimum hFuel _
  have hTokens : (Expression.element left right).pieces.reduceOption =
      row 16 left ++ .symbol .openBracket :: (row 0 right ++ [.symbol .closeBracket]) := by
    simp [List.reduceOption_append]
  have hStops : Stops 0 (.symbol .closeBracket :: rest) := fun next hNext => by cases hNext
  rw [hTokens, List.length_append, List.length_cons, List.length_append] at hFuel ⊢
  obtain ⟨fuel', hFuel', hRead⟩ := readsArray.suffix wellFormedArray 16 fuel .index
    (.symbol .openBracket :: (row 0 right ++ .symbol .closeBracket :: rest)) rfl hMinimum
    (hMinimum.trans (show 16 ≤ 17 by decide)) (by omega)
    (fun hStrong => (limit_of_strong (Nat.le_of_succ_le hStrong)).2 hClear) (fun _ => by simp) fun fuel' hFuel' => by
      rw [readSuffix, readsIndex.whole wellFormedIndex 0 fuel' (Nat.le_refl 0) (by omega) hStops]
      rfl
  exact ⟨fuel', by omega, by simpa using hRead⟩

theorem Reads.length (reads : Reads left) (wellFormed : left.WellFormed) : Reads (length left) := by
  intro fuel minimum rest hMinimum hFuel _
  have hTokens : (Expression.length left).pieces.reduceOption =
      row 16 left ++ [.symbol .point, .word "length"] := by
    simp [List.reduceOption_append]
  rw [hTokens, List.length_append, List.length_cons, List.length_singleton] at hFuel ⊢
  obtain ⟨fuel', hFuel', hRead⟩ := reads.suffix wellFormed 16 fuel .member
    (.symbol .point :: .word "length" :: rest) rfl hMinimum hMinimum (Nat.lt_of_succ_lt hFuel)
    (fun hStrong => (limit_of_strong (Nat.le_of_succ_le hStrong)).1) (fun _ => by simp) fun _ _ => rfl
  exact ⟨fuel', by omega, by simpa using hRead⟩

theorem Reads.ternary (readsTest : Reads left) (readsTrue : Reads right) (readsFalse : Reads value)
    (wellFormedTest : left.WellFormed) (wellFormedTrue : right.WellFormed) (wellFormedFalse : value.WellFormed) :
    Reads (ternary left right value) := by
  intro fuel minimum rest hMinimum hFuel hEnds
  have hTokens : (Expression.ternary left right value).pieces.reduceOption =
      row 3 left ++ .symbol .question :: (row 3 right ++ .symbol .colon :: row 2 value) := by
    simp [between, List.reduceOption_append]
  have hStops : Stops 0 (.symbol .colon :: (row 2 value ++ rest)) := fun next hNext => by cases hNext
  rw [hTokens, List.length_append, List.length_cons, List.length_append, List.length_cons] at hFuel ⊢
  obtain ⟨fuel', hFuel', hRead⟩ := readsTest.suffix wellFormedTest 3 fuel .conditional
    (.symbol .question :: (row 3 right ++ .symbol .colon :: (row 2 value ++ rest))) rfl
    (hMinimum.trans (show 2 ≤ 3 by decide)) hMinimum (by omega)
    (fun hStrong => lt_limit (by decide) (.inl hStrong)) (fun _ => by simp) fun fuel' hFuel' => by
      rw [readSuffix, readsTrue.whole wellFormedTrue 3 fuel' (Nat.zero_le 3) (by omega) hStops]
      simp only [Option.bind_eq_bind, Option.bind_some, expect, ↓reduceIte]
      rw [readsFalse.whole wellFormedFalse 2 fuel' (Nat.le_refl 2) (by omega) hEnds.1]
      rfl
  exact ⟨fuel', by omega, by simpa using hRead⟩

/-! ### Names of types -/

/-- The text does not go on with the name of a type. -/
theorem readMembers_written (members : List String) (hRest : rest.head? ≠ some (.symbol .point)) :
    readMembers ((TypeName.selections members).reduceOption ++ rest) = (members, rest) := by
  induction members with
  | nil =>
      rw [TypeName.selections, List.reduceOption_nil, List.nil_append, readMembers.eq_def]
      split
      · next hTokens => exact absurd rfl hRest
      · rfl
  | cons member members ih => simp [TypeName.selections, readMembers, ih]

theorem readDimensions_written (dimensions : Nat) (hRest : rest.head? ≠ some (.symbol .openBracket)) :
    readDimensions ((TypeName.brackets dimensions).reduceOption ++ rest) = (dimensions, rest) := by
  induction dimensions with
  | zero =>
      rw [TypeName.brackets, List.reduceOption_nil, List.nil_append, readDimensions.eq_def]
      split
      · next hTokens => exact absurd rfl hRest
      · rfl
  | succ dimensions ih => simp [TypeName.brackets, readDimensions, ih]

theorem head?_brackets (dimensions : Nat) (hRest : rest.head? ≠ some (.symbol .point)) :
    ((TypeName.brackets dimensions).reduceOption ++ rest).head? ≠ some (.symbol .point) := by
  cases dimensions with
  | zero => exact hRest
  | succ dimensions => simp [TypeName.brackets]

theorem readPath_written {type : TypeName} (wellFormed : type.WellFormed)
    (hRest : rest.head? ≠ some (.symbol .point)) :
    readPath (type.path.reduceOption ++ rest) = some ({ type with dimensions := 0 }, rest) := by
  rw [TypeName.path, List.reduceOption_cons_of_some, List.cons_append, readPath, if_pos wellFormed.1,
    readMembers_written type.members hRest]

/-- What binds looser than brackets and points goes on with neither. -/
theorem Stops.head {level : Nat} (stops : Stops level rest) (hLevel : level ≤ 16) :
    rest.head? ≠ some (.symbol .point) ∧ rest.head? ≠ some (.symbol .openBracket) := by
  constructor <;> intro hHead <;> obtain ⟨next, rfl⟩ := List.head?_eq_some_iff.mp hHead
  · exact absurd (stops (.member, next) rfl) (Nat.not_lt.mpr hLevel)
  · exact absurd (stops (.index, next) rfl) (Nat.not_lt.mpr (Nat.le_succ_of_le hLevel))

theorem Reads.instanceOf (reads : Reads value) (wellFormed : value.WellFormed) {type : TypeName}
    (wellFormedType : type.WellFormed) : Reads (instanceOf value type) := by
  intro fuel minimum rest hMinimum hFuel hEnds
  have hTokens : (Expression.instanceOf value type).pieces.reduceOption =
      row 10 value ++ .word "instanceof" :: (type.pieces.reduceOption) := by
    simp [List.reduceOption_append]
  rw [hTokens, List.length_append, List.length_cons] at hFuel ⊢
  obtain ⟨hPoint, hBracket⟩ := hEnds.1.head (show 10 ≤ 16 by decide)
  obtain ⟨fuel', hFuel', hRead⟩ := reads.suffix wellFormed 10 fuel .instanceOf
    (.word "instanceof" :: (type.pieces.reduceOption ++ rest)) rfl (hMinimum.trans (show 9 ≤ 10 by decide)) hMinimum
    (by omega) (fun hStrong => lt_limit (by decide) (.inl hStrong)) (fun _ => by simp) fun fuel' hFuel' => by
      have hNoPoint := head?_brackets type.dimensions hPoint
      rw [readSuffix, TypeName.pieces, List.reduceOption_append, List.append_assoc,
        readPath_written wellFormedType hNoPoint]
      simp only [Option.bind_eq_bind, Option.bind_some]
      rw [readDimensions_written _ hBracket, if_neg (hEnds.2 rfl)]
  exact ⟨fuel', by omega, by simpa using hRead⟩

theorem Reads.newArray (reads : Reads value) (wellFormed : value.WellFormed) {type : TypeName}
    (wellFormedType : type.WellFormed) (hPath : type.dimensions = 0) : Reads (newArray type value) := by
  intro fuel minimum rest hMinimum hFuel hEnds
  have hTokens : (Expression.newArray type value).pieces.reduceOption =
      .word "new" :: (type.path.reduceOption ++ .symbol .openBracket :: (row 0 value ++ [.symbol .closeBracket])) := by
    simp [List.reduceOption_append]
  have hStops : Stops 0 (.symbol .closeBracket :: rest) := fun next hNext => by cases hNext
  have hBracket : rest.head? ≠ some (.symbol .openBracket) := by
    intro hHead
    obtain ⟨next, rfl⟩ := List.head?_eq_some_iff.mp hHead
    exact absurd (hEnds.1 (.index, next) rfl) (Nat.lt_irrefl 17)
  have hType : { type with dimensions := 0 } = type := by rw [← hPath]
  rw [hTokens, List.length_cons, List.length_append, List.length_cons, List.length_append] at hFuel ⊢
  obtain ⟨fuel, rfl⟩ := Nat.exists_eq_succ_of_ne_zero (Nat.ne_zero_of_lt hFuel)
  refine ⟨fuel, by omega, ?_⟩
  rw [List.cons_append, readOperand, if_pos rfl, List.append_assoc, readPath_written wellFormedType (by simp)]
  simp only [Option.bind_eq_bind, Option.bind_some, expect, ↓reduceIte, List.cons_append, List.append_assoc,
    List.nil_append]
  rw [reads.whole wellFormed 0 fuel (Nat.le_refl 0) (by omega) hStops]
  simp [hBracket, hType]

end

/-- An expression is read back from its tokens. -/
theorem reads_pieces (wellFormed : expression.WellFormed) (clear : expression.Clear) : Reads expression := by
  induction expression with
  | name text => exact reads_name wellFormed
  | number value => exact reads_number value
  | binary left operator right ihLeft ihRight =>
      exact (ihLeft wellFormed.1 clear.1).binary (ihRight wellFormed.2 clear.2.1) wellFormed.1 wellFormed.2 clear.2.2
  | unary operator value ih => exact (ih wellFormed.1 clear.1).unary wellFormed.1 clear.2
  | assign target operator value ihTarget ihValue =>
      obtain ⟨hTarget, hPlace, hValue⟩ := wellFormed
      exact (ihTarget hTarget clear.1).assign (ihValue hValue clear.2) hTarget hPlace hValue
  | ternary test onTrue onFalse ihTest ihTrue ihFalse =>
      obtain ⟨hTest, hTrue, hFalse⟩ := wellFormed
      exact (ihTest hTest clear.1).ternary (ihTrue hTrue clear.2.1) (ihFalse hFalse clear.2.2) hTest hTrue hFalse
  | cast type value ih => exact (ih wellFormed.2 clear).cast wellFormed.2 wellFormed.1
  | instanceOf value type ih => exact (ih wellFormed.1 clear).instanceOf wellFormed.1 wellFormed.2
  | element array index ihArray ihIndex =>
      exact (ihArray wellFormed.1 clear.1).element (ihIndex wellFormed.2 clear.2.1) wellFormed.1 wellFormed.2 clear.2.2
  | length array ih => exact (ih wellFormed clear.1).length wellFormed
  | newArray type size ih =>
      obtain ⟨hType, hPath, hSize⟩ := wellFormed
      exact (ih hSize clear).newArray hSize hType hPath

end Decompiler.Source.Expression
