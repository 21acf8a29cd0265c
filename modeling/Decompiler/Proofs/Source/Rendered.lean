import Decompiler.Code.Expression
import Decompiler.Code.Printer
import Decompiler.Proofs.Source.Spelling

/-!
The text that is written for an operand is the text of its expression, and is read back as it.
-/

namespace Decompiler.Source

open Code
open Source.Expression (pieces placed between)

variable {scope : Scope} {operand first second : Operand} {kind : OperandKind}
  {expression expression' : Expression}

/-- The operand is of a kind and not in parentheses of its own. -/
structure Plain (operand : Operand) (kind : OperandKind) : Prop where
  kind : operand.kind = kind
  bare : operand.enclosed = false

/-- The expression that an operand is written as. A constant is a number where its type is neither that of truth
values nor that of characters. -/
inductive Renders (scope : Scope) : Operand → Expression → Prop where
  | name {operand : Operand} {id : VariableId} (plain : Plain operand (.localVariable id false)) :
      Renders scope operand (.name (scope.locals.get id).name)
  | number {operand : Operand} {value : Int32} (plain : Plain operand (.number (.int value)))
      (hBoolean : scope.types.typeOf operand.type ≠ .boolean) (hChar : scope.types.typeOf operand.type ≠ .char) :
      Renders scope operand (.number value.toInt)
  | binary {operand left right : Operand} {operator : BinaryOperator} {first second : Expression}
      (plain : Plain operand (.binary left operator right)) (left : Renders scope left first)
      (right : Renders scope right second) : Renders scope operand (.binary first operator second)
  | unary {operand value : Operand} {operator : UnaryOperator} {inner : Expression}
      (plain : Plain operand (.unary operator value)) (value : Renders scope value inner) :
      Renders scope operand (.unary operator inner)
  | assign {operand target value : Operand} {operator : AssignOperator} {first second : Expression}
      (plain : Plain operand (.assign target operator value)) (target : Renders scope target first)
      (value : Renders scope value second) : Renders scope operand (.assign first operator second)
  | ternary {operand test onTrue onFalse : Operand} {first second third : Expression}
      (plain : Plain operand (.ternary test onTrue onFalse)) (test : Renders scope test first)
      (onTrue : Renders scope onTrue second) (onFalse : Renders scope onFalse third) :
      Renders scope operand (.ternary first second third)
  | cast {operand value : Operand} {type : JvmType} {inner : Expression} (plain : Plain operand (.cast type value))
      (value : Renders scope value inner) : Renders scope operand (.cast type.simpleName inner)
  | instanceOf {operand value : Operand} {type : JvmType} {named : TypeName} {inner : Expression}
      (plain : Plain operand (.instanceOf value type)) (hType : type.simpleName.toList = spell named.pieces)
      (value : Renders scope value inner) : Renders scope operand (.instanceOf inner named)
  | element {operand array index : Operand} {first second : Expression} (plain : Plain operand (.element array index))
      (array : Renders scope array first) (index : Renders scope index second) :
      Renders scope operand (.element first second)
  | length {operand array : Operand} {inner : Expression} (plain : Plain operand (.length array))
      (array : Renders scope array inner) : Renders scope operand (.length inner)
  | newArray {operand size : Operand} {type : JvmType} {named : TypeName} {inner : Expression}
      (plain : Plain operand (.newArray type [size] none)) (hType : type.simpleName.toList = spell named.path)
      (size : Renders scope size inner) : Renders scope operand (.newArray named inner)

theorem Plain.strength (plain : Plain operand kind) :
    Code.strength scope operand = strengthOfKind scope (scope.isBoolean operand.type) kind := by
  obtain ⟨_, _, _, _, _, _⟩ := operand
  obtain ⟨rfl, rfl⟩ := plain
  rw [Code.strength]

theorem Plain.ofOperand (plain : Plain operand kind) (minimum : Nat) : Code.ofOperand scope minimum operand =
    if Code.strength scope operand < minimum then .enclosed (ofKind scope (scope.types.typeOf operand.type) kind)
    else ofKind scope (scope.types.typeOf operand.type) kind := by
  obtain ⟨_, _, _, _, _, _⟩ := operand
  obtain ⟨rfl, rfl⟩ := plain
  simp [Code.ofOperand]

/-- An operand binds as tightly as its expression. -/
theorem Renders.strength (renders : Renders scope operand expression) :
    Code.strength scope operand = expression.strength := by
  cases renders with
  | number plain =>
      simp only [plain.strength, strengthOfKind, Expression.strength, Int32.lt_iff_toInt_lt, Int32.toInt_zero]
  | _ =>
      rename_i plain
      simp only [plain.strength, strengthOfKind, Expression.strength]

/-- What is written in any place is written in parentheses where the place asks for them. -/
theorem Plain.text (plain : Plain operand kind) (hStrength : Code.strength scope operand = expression.strength)
    {depth : Nat}
    (hKind : ((ofKind scope (scope.types.typeOf operand.type) kind).text depth).toList = spell expression.pieces)
    (minimum : Nat) :
    ((Code.ofOperand scope minimum operand).text depth).toList = spell (expression.placed minimum) := by
  rw [plain.ofOperand, hStrength, placed, Expression.enclose]
  split
  · rw [Code.text, spell_token, spell_append]
    simp [hKind, Token.spelling, Symbol.text]
  · exact hKind

theorem toList_toString (value : Int) : (toString value).toList = spell (Expression.number value).pieces := by
  cases value with
  | ofNat n =>
      have hNatural : ¬Int.ofNat n < 0 := Int.not_lt.mpr (Int.natCast_nonneg n)
      rw [Json.toList_ofNat, pieces, if_neg hNatural]
      simp [Token.spelling]
  | negSucc n =>
      rw [Json.toList_negSucc, pieces, if_pos (by omega)]
      simp [Token.spelling, Symbol.text, BinaryOperator.symbol]

theorem intConstant_of_ne {type : JvmType} (hBoolean : type ≠ .boolean) (hChar : type ≠ .char) (value : Int32) :
    intConstant type value = .number (.int value) := by
  unfold intConstant
  split
  · exact absurd rfl hBoolean
  · exact absurd rfl hChar
  · rfl

theorem spelling_sign (operator : UnaryOperator) :
    (Token.symbol (sign operator)).spelling = operator.symbol.toList := by
  cases operator <;> rfl

/-- An operand in its place is written as its expression is. -/
theorem Renders.text (renders : Renders scope operand expression) (minimum depth : Nat) :
    ((ofOperand scope minimum operand).text depth).toList = spell (expression.placed minimum) := by
  have hStrength := renders.strength
  induction renders generalizing minimum with
  | name plain =>
      refine plain.text hStrength ?_ minimum
      simp [ofKind, localCode, Code.text, pieces, Token.spelling]
  | number plain hBoolean hChar =>
      refine plain.text hStrength ?_ minimum
      rw [ofKind, intConstant_of_ne hBoolean hChar, Code.text, Number.text, toList_toString]
  | binary plain left right ihLeft ihRight =>
      refine plain.text hStrength ?_ minimum
      simp [ofKind, Code.text, ihLeft _ left.strength, ihRight _ right.strength, pieces, placed, between,
        Token.spelling, Symbol.text]
  | unary plain value ih =>
      refine plain.text hStrength ?_ minimum
      rw [ofKind, Code.text, pieces]
      split <;> simp [ih _ value.strength, placed, spelling_sign, *]
  | assign plain target value ihTarget ihValue =>
      refine plain.text hStrength ?_ minimum
      simp [ofKind, Code.text, ihTarget _ target.strength, ihValue _ value.strength, pieces, placed, between,
        Token.spelling, Symbol.text]
  | ternary plain test onTrue onFalse ihTest ihTrue ihFalse =>
      refine plain.text hStrength ?_ minimum
      simp [ofKind, Code.text, ihTest _ test.strength, ihTrue _ onTrue.strength, ihFalse _ onFalse.strength, pieces,
        placed, between, Token.spelling, Symbol.text]
  | cast plain value ih =>
      refine plain.text hStrength ?_ minimum
      simp [ofKind, Code.text, ih _ value.strength, pieces, placed, Token.spelling, Symbol.text]
  | instanceOf plain hType value ih =>
      refine plain.text hStrength ?_ minimum
      simp [ofKind, Code.text, hType, ih _ value.strength, pieces, placed, Token.spelling]
  | element plain array index ihArray ihIndex =>
      refine plain.text hStrength ?_ minimum
      simp [ofKind, Code.text, ihArray _ array.strength, ihIndex _ index.strength, pieces, placed, Token.spelling,
        Symbol.text]
  | length plain array ih =>
      refine plain.text hStrength ?_ minimum
      simp [ofKind, Code.text, ih _ array.strength, pieces, placed, Token.spelling, Symbol.text]
  | newArray plain hType size ih =>
      refine plain.text hStrength ?_ minimum
      simp [ofKind, ofList, ofInitializers, Code.text, sizes, hType, ih _ size.strength, pieces, placed,
        Token.spelling, Symbol.text]

/-- What is written for an operand is read back as the operand's expression. -/
theorem read_text_ofOperand (renders : Renders scope operand expression) (wellFormed : expression.WellFormed)
    (clear : expression.Clear) (depth : Nat) :
    Expression.read ((ofOperand scope 0 operand).text depth) = some expression := by
  rw [← String.ofList_toList (s := (ofOperand scope 0 operand).text depth), renders.text 0 depth, placed,
    Expression.enclose, if_neg (Nat.not_lt_zero _)]
  exact Expression.read_text wellFormed clear

/-- Operands that are written alike have one expression. -/
theorem Renders.eq_of_text_eq {scope' : Scope} {operand' : Operand} {depth depth' : Nat}
    (renders : Renders scope operand expression) (renders' : Renders scope' operand' expression')
    (wellFormed : expression.WellFormed) (wellFormed' : expression'.WellFormed) (clear : expression.Clear)
    (clear' : expression'.Clear)
    (hText : (ofOperand scope 0 operand).text depth = (ofOperand scope' 0 operand').text depth') :
    expression = expression' := by
  have hRead := read_text_ofOperand renders wellFormed clear depth
  rw [hText, read_text_ofOperand renders' wellFormed' clear' depth'] at hRead
  exact (Option.some.inj hRead).symm

/-! ### Written alike -/

namespace Expression

/-- Two minus signs are written like a decrement. -/
theorem spell_negate_negate (value : Expression) :
    spell (unary .negate (unary .negate value)).pieces = spell (unary .preDecrement value).pieces := by
  simp [pieces, UnaryOperator.followsOperand, enclose, strength, Token.spelling, sign, Symbol.text,
    BinaryOperator.symbol]

/-- A number with a minus in front of it is written like the negative number. -/
theorem spell_negate_number {value : Int} (hPositive : 0 < value) :
    spell (unary .negate (number value)).pieces = spell (number (-value)).pieces := by
  have hNatural : ¬value < 0 := Int.not_lt.mpr (Int.le_of_lt hPositive)
  simp [pieces, UnaryOperator.followsOperand, enclose, strength, sign, hPositive, hNatural]

example : read "--arg0" = some (.unary .preDecrement (.name "arg0")) := by decide +kernel

example : read "new int[3][0]" = none := by decide +kernel

end Expression

end Decompiler.Source
