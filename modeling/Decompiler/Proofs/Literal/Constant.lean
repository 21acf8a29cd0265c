import Decompiler.Code.Expression
import Decompiler.Proofs.Execution.Block
import Decompiler.Proofs.Json.Reading
import Decompiler.Proofs.Literal.Written

/-!
Constants of type char. An int constant that is converted to a char, by an instruction or by the place that it is stored
into, is written as a character literal where its code is that of a character, and as a number otherwise. The text of
what the instruction leaves denotes the lower sixteen bits of the constant, except for the codes of characters beyond
sixteen bits: what is written for these is no character literal.
-/

namespace Decompiler.Literal

/-- The value of a constant expression. -/
inductive Constant where
  | character (unit : Nat)
  | int (value : Int)

/-! ### Constant expressions -/

def digit? (unit : Nat) : Option Nat :=
  if '0'.toNat ≤ unit ∧ unit ≤ '9'.toNat then some (unit - '0'.toNat) else none

def numberOf (digits : List Nat) : Option Nat :=
  digits.foldlM (fun value unit => (digit? unit).map (10 * value + ·)) 0

/-- The number of a decimal literal. One that starts with a zero and goes on is none, but an octal literal. -/
def readDecimal : List Nat → Option Nat
  | [] => none
  | first :: rest => if first = '0'.toNat ∧ rest ≠ [] then none else numberOf (first :: rest)

/-- A decimal literal behind its sign, if it has one. -/
def readSigned (text : List Nat) : Option Int :=
  if text.head? = some '-'.toNat then (readDecimal text.tail).map fun magnitude => -(magnitude : Int)
  else (readDecimal text).map fun magnitude => (magnitude : Int)

/-- A number of 32 bits. -/
def readInt (text : List Nat) : Option Int :=
  (readSigned text).filter fun value => -0x80000000 ≤ value ∧ value < 0x80000000

/-- What a cast to char starts with. -/
def castOpening : List Nat := "(char)".toList.map Char.toNat

/-- A constant expression: a literal of a character or an int, or the cast of an int literal to char. -/
def readConstant (text : List Nat) : Option Constant :=
  if text.head? = some '\''.toNat then
    match read '\''.toNat text with
    | some ([unit], []) => some (.character unit)
    | _ => none
  else if castOpening.isPrefixOf text then
    (readInt ((text.drop castOpening.length).dropWhile (· = ' '.toNat))).map fun value =>
      .character (value % 0x10000).toNat
  else (readInt text).map .int

/-- The constant that a source text is read as. -/
def constantOf (text : String) : Option Constant := (translate (units text.toList)).bind readConstant

/-! ### Numbers as they are written -/

theorem numberOf_toDigits (n : Nat) : numberOf ((Nat.toDigits 10 n).map Char.toNat) = some n := by
  induction n using Nat.strongRecOn with
  | _ n ih =>
    have hDigit : ∀ m < 10, digit? m.digitChar.toNat = some m := by decide
    rw [Nat.toDigits_eq_if (by decide)]
    split_ifs with hSmall
    · simp [numberOf, hDigit n hSmall]
    · have hFront := ih (n / 10) (by omega)
      have hLast := hDigit (n % 10) (Nat.mod_lt n (by decide))
      unfold numberOf at hFront
      rw [numberOf, List.map_append, List.foldlM_append, hFront]
      simp [hLast, Nat.div_add_mod]

theorem readDecimal_toDigits (n : Nat) : readDecimal ((Nat.toDigits 10 n).map Char.toNat) = some n := by
  obtain ⟨c, digits, hDigits, -⟩ := Json.exists_toDigits_cons n
  have hNumber := numberOf_toDigits n
  rw [hDigits, List.map_cons] at hNumber
  have hZero : ¬(c.toNat = '0'.toNat ∧ digits.map Char.toNat ≠ []) := by
    rintro ⟨hFirst, hMore⟩
    by_cases hSmall : n < 10
    · rw [Nat.toDigits_of_lt_base hSmall, List.cons.injEq] at hDigits
      simp [← hDigits.2] at hMore
    · have hHead := Json.head?_toDigits_ne (n := n) (by omega)
      rw [hDigits, List.head?_cons, ← Char.toNat_inj.mp hFirst] at hHead
      exact hHead rfl
  rw [hDigits, List.map_cons, readDecimal, if_neg hZero, hNumber]

/-- The digits have no sign. -/
theorem head?_toDigits_map (n : Nat) : ((Nat.toDigits 10 n).map Char.toNat).head? ≠ some '-'.toNat := by
  obtain ⟨c, digits, hDigits, hDigit⟩ := Json.exists_toDigits_cons n
  rw [hDigits]
  simp only [List.map_cons, List.head?_cons, ne_eq, Option.some.injEq, Char.toNat_inj]
  rintro rfl
  exact absurd hDigit (by decide)

theorem readSigned_toString (value : Int) : readSigned ((toString value).toList.map Char.toNat) = some value := by
  cases value with
  | ofNat n =>
    rw [Json.toList_ofNat, readSigned, if_neg (head?_toDigits_map n), readDecimal_toDigits]
    rfl
  | negSucc n =>
    rw [Json.toList_negSucc, readSigned, List.map_cons, if_pos List.head?_cons, List.tail_cons, readDecimal_toDigits]
    rfl

theorem readInt_toString (code : Int32) :
    readInt ((toString code.toInt).toList.map Char.toNat) = some code.toInt := by
  rw [readInt, readSigned_toString, Option.filter_some_pos]
  simpa using ⟨code.le_toInt, code.toInt_lt⟩

/-- The text is single units, none of which starts an escape. -/
def Plain (text : List Char) : Prop := ∀ c ∈ text, c.toNat < 0x10000 ∧ c ≠ '\\'

theorem translate_plain {text : List Char} (plain : Plain text) :
    translate (units text) = some (text.map Char.toNat) := by
  induction text with
  | nil => rfl
  | cons c text ih =>
    obtain ⟨⟨hSingle, hBackslash⟩, hText⟩ := List.forall_mem_cons.mp plain
    have hUnits : units (c :: text) = c.toNat :: units text := by simp [units, encode, hSingle]
    rw [hUnits, translate_cons (by simpa only [ne_eq, Char.toNat_inj]), ih hText]
    rfl

theorem plain_toDigits (n : Nat) : Plain (Nat.toDigits 10 n) := by
  intro c hMember
  have hDigit := Nat.isDigit_of_mem_toDigits (by decide) (by decide) hMember
  constructor
  · exact Nat.lt_of_le_of_lt (Char.isDigit_iff_toNat.mp hDigit).2 (by decide)
  · rintro rfl
    exact absurd hDigit (by decide)

theorem plain_toString (value : Int) : Plain (toString value).toList := by
  cases value with
  | ofNat n =>
    rw [Json.toList_ofNat]
    exact plain_toDigits n
  | negSucc n =>
    rw [Json.toList_negSucc]
    exact List.forall_mem_cons.mpr ⟨by decide, plain_toDigits (n + 1)⟩

/-! ### Constants as they are read -/

variable {depth : Nat}

/-- A number starts with a digit or with its sign. -/
theorem head?_toString_ne (value : Int) {c : Char} (hSign : c ≠ '-') (hDigit : c.isDigit = false) :
    ((toString value).toList.map Char.toNat).head? ≠ some c.toNat := by
  obtain ⟨first, digits, hText, hFirst⟩ := Json.exists_toString_cons value
  simp only [hText, List.map_cons, List.head?_cons, ne_eq, Option.some.injEq, Char.toNat_inj]
  rintro rfl
  rcases hFirst with hFirst | hFirst
  · exact hSign hFirst
  · simp [hDigit] at hFirst

theorem constantOf_number (code : Int32) :
    constantOf (Code.text depth (.number (.int code))) = some (.int code.toInt) := by
  have hNoCast : ¬castOpening.isPrefixOf ((toString code.toInt).toList.map Char.toNat) = true := by
    intro hPrefix
    obtain ⟨rest, hText⟩ := List.isPrefixOf_iff_prefix.mp hPrefix
    have hOther := head?_toString_ne code.toInt (c := '(') (by decide) (by decide)
    rw [← hText] at hOther
    exact hOther rfl
  rw [Code.text, constantOf, Number.text, translate_plain (plain_toString _), Option.bind_some, readConstant,
    if_neg (head?_toString_ne _ (by decide) (by decide)), if_neg hNoCast, readInt_toString, Option.map_some]

theorem readConstant_cast {number : List Nat} (hBlank : number.head? ≠ some ' '.toNat) :
    readConstant (castOpening ++ ' '.toNat :: number) =
      (readInt number).map fun value => .character (value % 0x10000).toNat := by
  have hQuote : (castOpening ++ ' '.toNat :: number).head? ≠ some '\''.toNat := by
    change some '('.toNat ≠ some '\''.toNat
    decide
  have hOpening : castOpening.isPrefixOf (castOpening ++ ' '.toNat :: number) = true :=
    List.isPrefixOf_iff_prefix.mpr (List.prefix_append _ _)
  have hNumber : (' '.toNat :: number).dropWhile (· = ' '.toNat) = number := by
    cases number with
    | nil => rfl
    | cons unit number => simpa using hBlank
  rw [readConstant, if_neg hQuote, if_pos hOpening, List.drop_left, hNumber]

/-- The cast of an int literal denotes the lower sixteen bits of the number. -/
theorem constantOf_cast (code : Int32) :
    constantOf (Code.text depth (.cast .char (.number (.int code)))) =
      some (.character (code.toInt % 0x10000).toNat) := by
  have hCode : (Code.text depth (.cast .char (.number (.int code)))).toList =
      "(char) ".toList ++ (toString code.toInt).toList := by
    simp only [Code.text, Number.text, String.toList_append]
    rfl
  have hPlain : Plain ("(char) ".toList ++ (toString code.toInt).toList) :=
    List.forall_mem_append.mpr ⟨by simp, plain_toString _⟩
  have hUnits : ("(char) ".toList ++ (toString code.toInt).toList).map Char.toNat =
      castOpening ++ ' '.toNat :: (toString code.toInt).toList.map Char.toNat := List.map_append
  have hBlank := head?_toString_ne code.toInt (c := ' ') (by decide) (by decide)
  rw [constantOf, hCode, translate_plain hPlain, Option.bind_some, hUnits, readConstant_cast hBlank,
    readInt_toString, Option.map_some]

/-- A character literal denotes a character of one unit, and no other one. -/
theorem constantOf_character (c : Char) :
    constantOf (Code.text depth (.character c)) = if c.toNat < 0x10000 then some (.character c.toNat) else none := by
  have hRead := read_literal (.inr rfl) [c]
  obtain ⟨translated, hTranslate, hUnits⟩ := Option.bind_eq_some_iff.mp hRead
  have hQuote : translated.head? = some '\''.toNat := by
    by_contra hOther
    rw [read, if_neg hOther] at hUnits
    cases hUnits
  rw [Code.text, constantOf, hTranslate, Option.bind_some, readConstant, if_pos hQuote, hUnits]
  split_ifs with hSingle
  · simp [units, encode, hSingle]
  · simp [units, encode, hSingle]

/-! ### Operands as constants -/

section Operands

open Execution

variable {setting : Setting} {block : Block} {rest : List Operand} {value : Operand} {code : Int32} {minimum : Nat}
  {scope : Code.Scope}

attribute [local simp] Code.strengthOfKind Code.ofKind

theorem strength_eq (scope : Code.Scope) (value : Operand) :
    Code.strength scope value = Code.strengthOfKind scope (scope.isBoolean value.type) value.kind := by
  cases value
  rw [Code.strength]

/-- An operand that binds tightly enough has no parentheses. -/
theorem ofOperand_of_strength (hSingle : value.enclosed = false) (hStrength : minimum ≤ Code.strength scope value) :
    Code.ofOperand scope minimum value = Code.ofKind scope (scope.types.typeOf value.type) value.kind := by
  obtain ⟨id, type, duplicated, enclosed, statement, kind⟩ := value
  cases hSingle
  rw [Code.ofOperand, if_neg]
  simpa using hStrength

/-- A constant whose code is that of no character is written as a number, unless it is a boolean. -/
theorem ofOperand_int (hKind : value.kind = .number (.int code)) (hSingle : value.enclosed = false)
    (hBoolean : scope.types.typeOf value.type ≠ .boolean) (hCode : charOfCode? code = none) (hMinimum : minimum ≤ 14) :
    Code.ofOperand scope minimum value = .number (.int code) := by
  have hStrength : minimum ≤ Code.strength scope value := by
    rw [strength_eq, hKind, Code.strengthOfKind]
    split <;> omega
  have hConstant : Code.intConstant (scope.types.typeOf value.type) code = .number (.int code) := by
    unfold Code.intConstant
    split
    · exact absurd ‹_› hBoolean
    · rw [hCode]
    · rfl
  rw [ofOperand_of_strength hSingle hStrength, hKind, Code.ofKind, hConstant]

theorem ofOperand_character {c : Char} (hKind : value.kind = .character c) (hSingle : value.enclosed = false)
    (hMinimum : minimum ≤ 16) : Code.ofOperand scope minimum value = .character c := by
  have hStrength : Code.strength scope value = 16 := by simp [strength_eq, hKind]
  rw [ofOperand_of_strength hSingle (hStrength ▸ hMinimum), hKind, Code.ofKind]

theorem ofOperand_cast {inner : Operand} (hKind : value.kind = .cast .char inner) (hSingle : value.enclosed = false)
    (hMinimum : minimum ≤ 13) : Code.ofOperand scope minimum value = .cast .char (Code.ofOperand scope 14 inner) := by
  have hStrength : Code.strength scope value = 13 := by simp [strength_eq, hKind]
  rw [ofOperand_of_strength hSingle (hStrength ▸ hMinimum), hKind, Code.ofKind]

/-! ### Conversion by an instruction -/

/-- What an int constant becomes that is converted to a char. -/
def converted (code : Int32) (value : Operand) : OperandKind :=
  match charOfCode? code with
  | some c => .character c
  | none => .cast .char value

theorem yields_i2c (hStack : block.stack = rest ++ [value]) (hKind : value.kind = .number (.int code))
    (hCopy : value.duplicated = false) :
    Yields setting (accept (.insn .i2c)) block.execution ()
      { block with
        stack := rest ++ [({ id := block.supply.nextId, type := .known .char, kind := converted code value } : Operand)]
        supply := { block.supply with nextId := block.supply.nextId + 1 }
        codes := .i2c :: block.codes }.execution := by
  have hPush : pushCast value .char = (do push (← Operand.typed (converted code value) .char)) := by
    simp only [pushCast, converted, hKind]
    cases charOfCode? code <;> rfl
  refine Yields.bind (Block.yields_record _) (Yields.bind (Block.yields_pop hStack hCopy) ?_)
  rw [hPush]
  exact Yields.bind (Block.yields_supply _) (Block.yields_push _)

/-- The text of an int constant that was converted to a char denotes its lower sixteen bits, except for the codes of
characters beyond sixteen bits: the literal of such a character is none. -/
theorem converted_denotes_iff {operand : Operand} (hConverted : operand.kind = converted code value)
    (hPlain : operand.enclosed = false) (hKind : value.kind = .number (.int code)) (hSingle : value.enclosed = false)
    (hBoolean : scope.types.typeOf value.type ≠ .boolean) (hMinimum : minimum ≤ 13) :
    constantOf (Code.text depth (Code.ofOperand scope minimum operand)) =
        some (.character (code.toInt % 0x10000).toNat) ↔
      ¬(0x10000 ≤ code.toInt ∧ code.toInt < 0x110000) := by
  unfold converted at hConverted
  split at hConverted
  next c hCode =>
    have hValue := toInt_of_charOfCode? hCode
    have hLast := toNat_lt c
    rw [ofOperand_character hConverted hPlain (by omega), constantOf_character]
    split_ifs with hUnit
    · have hSame : (code.toInt % 0x10000).toNat = c.toNat := by omega
      rw [hSame]
      exact iff_of_true rfl (by omega)
    · exact iff_of_false (by simp) (by omega)
  next hCode =>
    have hRange := charOfCode?_eq_none_iff.mp hCode
    rw [ofOperand_cast hConverted hPlain hMinimum, ofOperand_int hKind hSingle hBoolean hCode (Nat.le_refl _),
      constantOf_cast]
    exact iff_of_true rfl (by omega)

example : constantOf "'\\ud800\\udc41'" = none ∧ constantOf "(char) 65601" = some (.character 'A'.toNat) := by
  constructor <;> cbv

/-! ### Conversion by the place of a value -/

/-- An int constant that is stored as a char is written as a char constant. -/
theorem ofOperand_coerce_char (hKind : value.kind = .number (.int code)) (hSingle : value.enclosed = false)
    (hBoolean : scope.types.typeOf value.type ≠ .boolean) (hMinimum : minimum ≤ 14) (supply : Supply) :
    Code.ofOperand scope minimum ((value.coerce .char).run supply).1 = Code.intConstant .char code := by
  rw [Operand.coerce_char hKind, Code.intConstant]
  cases hCode : charOfCode? code with
  | some c => exact ofOperand_character rfl rfl (Nat.le_trans hMinimum (by decide))
  | none =>
    have hSame := Operand.suggestStored_fst value .char supply
    dsimp only
    rw [hSame, ofOperand_int hKind hSingle hBoolean hCode hMinimum]

/-- A char constant within sixteen bits is written as the literal of its character. A surrogate, which is no character,
stays an int literal, for which the place of the value has to convert it. -/
theorem intConstant_denotes (hRange : 0 ≤ code.toInt ∧ code.toInt < 0x10000) :
    constantOf (Code.text depth (Code.intConstant .char code)) =
      some (if 0xD800 ≤ code.toInt ∧ code.toInt < 0xE000 then .int code.toInt else .character code.toInt.toNat) := by
  rw [Code.intConstant]
  cases hCode : charOfCode? code with
  | some c =>
    have hValue := toInt_of_charOfCode? hCode
    have hOther : ¬charOfCode? code = none := by simp [hCode]
    rw [charOfCode?_eq_none_iff] at hOther
    dsimp only
    rw [constantOf_character, if_pos (by omega), if_neg (by omega), hValue, Int.toNat_natCast]
  | none =>
    have hSurrogate := charOfCode?_eq_none_iff.mp hCode
    dsimp only
    rw [constantOf_number, if_pos (by omega)]

end Operands

end Decompiler.Literal
