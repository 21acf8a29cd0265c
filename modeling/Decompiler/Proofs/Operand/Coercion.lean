import Decompiler.Operand.Coercion

/-!
Values that stay the same operand when they are stored. Only booleans and characters have literals of their own that
a number or a condition turns into; everything else learns the type and is left alone. A number turns into a character
if it is the code of one.
-/

namespace Decompiler

variable {code : Int32}

/-- The number of the code with its sign. -/
theorem toInt_eq_toNat (code : Int32) :
    code.toInt = if code.toUInt32.toNat < 0x80000000 then (code.toUInt32.toNat : Int)
      else (code.toUInt32.toNat : Int) - 0x100000000 := by
  have hSigned : code.toInt = code.toBitVec.toInt := rfl
  have hUnsigned : code.toUInt32.toNat = code.toBitVec.toNat := rfl
  rw [hSigned, hUnsigned, BitVec.toInt_eq_toNat_cond]
  simp only [Nat.reducePow]
  split <;> split <;> omega

theorem toInt_of_charOfCode? {c : Char} (hChar : charOfCode? code = some c) : code.toInt = c.toNat := by
  unfold charOfCode? at hChar
  split at hChar
  next hValid =>
    cases hChar
    have hLast : code.toUInt32.toNat < 0x80000000 := by
      unfold UInt32.isValidChar Nat.isValidChar at hValid
      omega
    rw [toInt_eq_toNat, if_pos hLast]
    rfl
  next => cases hChar

/-- A code is that of no character if it is negative, one of a surrogate or too large. -/
theorem charOfCode?_eq_none_iff :
    charOfCode? code = none ↔ code.toInt < 0 ∨ (0xD800 ≤ code.toInt ∧ code.toInt < 0xE000) ∨ 0x110000 ≤ code.toInt := by
  have hCode := toInt_eq_toNat code
  have hRange := code.toUInt32.toNat_lt
  have hValid : charOfCode? code = none ↔ ¬code.toUInt32.isValidChar := by simp [charOfCode?]
  rw [hValid, UInt32.isValidChar, Nat.isValidChar]
  split at hCode <;> omega

namespace Operand

variable {value : Operand} {type : JvmType}

/-- Storing the value into a place of the type leaves it the operand that it is. -/
def StoredAs (value : Operand) (type : JvmType) : Prop :=
  (type ≠ .boolean ∧ type ≠ .char) ∨ ((∀ number, value.kind ≠ .number number) ∧ ∀ test, value.kind ≠ .zeroOrOne test)

/-- Then a coercion is no more than a suggestion. -/
theorem StoredAs.coerce (stored : value.StoredAs type) : value.coerce type = value.suggestStored type := by
  unfold Operand.coerce
  rcases stored with ⟨hBoolean, hChar⟩ | ⟨hNumber, hZeroOrOne⟩
  · split
    · exact absurd rfl hBoolean
    · exact absurd rfl hBoolean
    · exact absurd rfl hBoolean
    · exact absurd rfl hChar
    · rfl
  · split
    · next hKind => exact absurd hKind (hNumber _)
    · next hKind => exact absurd hKind (hNumber _)
    · next hKind => exact absurd hKind (hZeroOrOne _)
    · next hKind => exact absurd hKind (hNumber _)
    · rfl

/-- A suggestion is made to the types and leaves the operand alone. -/
theorem suggestStored_fst (value : Operand) (type : JvmType) (supply : Supply) :
    ((value.suggestStored type).run supply).1 = value := by
  unfold suggestStored
  split <;> rfl

theorem StoredAs.coerce_fst (stored : value.StoredAs type) (supply : Supply) :
    ((value.coerce type).run supply).1 = value := by
  rw [stored.coerce, suggestStored_fst]

/-- A number becomes the character of its code. -/
theorem coerce_char (hKind : value.kind = .number (.int code)) :
    value.coerce .char = match charOfCode? code with
      | some c => Operand.typed (.character c) .char
      | none => value.suggestStored .char := by
  unfold Operand.coerce
  split
  next hType => cases hType
  next hType => cases hType
  next hType => cases hType
  next hSame _ =>
    rw [hKind] at hSame
    cases hSame
    rfl
  next hOther => exact absurd hKind (hOther _ · rfl)

end Operand

end Decompiler
