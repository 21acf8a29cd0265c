import Decompiler.Json.Parser
import Decompiler.Json.Printer
import Mathlib.Data.List.Basic

/-!
The texts that spell a JSON value. There are many: blanks may stand between the parts, and most characters of a string
may stand for themselves or be escaped. The writer's text is one of them.
-/

namespace Decompiler.Json

/-! ### Strings -/

/-- Four hexadecimal digits and the number they write. -/
inductive CodeUnit : Nat → List Char → Prop where
  | digits {a b c d : Char} {p q r s : Nat} :
      hexValue? a = some p → hexValue? b = some q → hexValue? c = some r → hexValue? d = some s →
      CodeUnit (((p * 16 + q) * 16 + r) * 16 + s) [a, b, c, d]

/-- A character and what may stand for it after a backslash. A character beyond the first 65536 takes the escapes of
two surrogates. -/
inductive Escape : Char → List Char → Prop where
  | quote : Escape '"' ['"']
  | backslash : Escape '\\' ['\\']
  | slash : Escape '/' ['/']
  | backspace : Escape '\x08' ['b']
  | formFeed : Escape '\x0c' ['f']
  | lineFeed : Escape '\n' ['n']
  | carriageReturn : Escape '\r' ['r']
  | tab : Escape '\t' ['t']
  | unit {value : Nat} {digits : List Char} :
      CodeUnit value digits → value < 0xD800 ∨ 0xDFFF < value → Escape (Char.ofNat value) ('u' :: digits)
  | surrogates {high low : Nat} {first second : List Char} :
      CodeUnit high first → CodeUnit low second → 0xD800 ≤ high → high < 0xDC00 → 0xDC00 ≤ low → low ≤ 0xDFFF →
      Escape (Char.ofNat (0x10000 + (high - 0xD800) * 0x400 + (low - 0xDC00)))
        ('u' :: first ++ '\\' :: 'u' :: second)

/-- The characters of a string and a text of them after the opening quote, with the closing quote. -/
inductive Quoted : List Char → List Char → Prop where
  | close : Quoted [] ['"']
  | plain {c : Char} {chars text : List Char} :
      0x20 ≤ c.toNat → c ≠ '"' → c ≠ '\\' → Quoted chars text → Quoted (c :: chars) (c :: text)
  | escaped {c : Char} {code chars text : List Char} :
      Escape c code → Quoted chars text → Quoted (c :: chars) ('\\' :: code ++ text)

/-! ### Values -/

/-- What a piece of text may spell: a value, one field of an object, or what follows the first item of an array or the
first field of an object, up to the closing bracket. -/
inductive Part where
  | value (json : Json)
  | field (name : String) (value : Json)
  | items (rest : List Json)
  | fields (rest : List (String × Json))

/-- The texts of a part. The only numbers among them are those written as integers. -/
inductive Spells : Part → List Char → Prop where
  | blank {part : Part} {c : Char} {text : List Char} : isBlank c = true → Spells part text → Spells part (c :: text)
  | nullWord : Spells (.value .null) "null".toList
  | trueWord : Spells (.value (.bool true)) "true".toList
  | falseWord : Spells (.value (.bool false)) "false".toList
  | int (value : Int) : Spells (.value (.int value)) (toString value).toList
  | str {value : String} {text : List Char} : Quoted value.toList text → Spells (.value (.str value)) ('"' :: text)
  | noItems {blanks : List Char} : blanks.all isBlank = true → Spells (.value (.arr [])) ('[' :: blanks ++ [']'])
  | arr {item : Json} {rest : List Json} {text tail : List Char} :
      Spells (.value item) text → Spells (.items rest) tail →
      Spells (.value (.arr (item :: rest))) ('[' :: text ++ tail)
  | noFields {blanks : List Char} :
      blanks.all isBlank = true → Spells (.value (.obj [])) ('\x7b' :: blanks ++ ['\x7d'])
  | obj {name : String} {value : Json} {rest : List (String × Json)} {text tail : List Char} :
      Spells (.field name value) text → Spells (.fields rest) tail →
      Spells (.value (.obj ((name, value) :: rest))) ('\x7b' :: text ++ tail)
  | field {name : String} {value : Json} {quoted blanks text : List Char} :
      Quoted name.toList quoted → blanks.all isBlank = true → Spells (.value value) text →
      Spells (.field name value) ('"' :: quoted ++ blanks ++ ':' :: text)
  | endItems : Spells (.items []) [']']
  | nextItem {item : Json} {rest : List Json} {text tail : List Char} :
      Spells (.value item) text → Spells (.items rest) tail → Spells (.items (item :: rest)) (',' :: text ++ tail)
  | endFields : Spells (.fields []) ['\x7d']
  | nextField {name : String} {value : Json} {rest : List (String × Json)} {text tail : List Char} :
      Spells (.field name value) text → Spells (.fields rest) tail →
      Spells (.fields ((name, value) :: rest)) (',' :: text ++ tail)

/-- The text spells the value, perhaps with blanks after it. -/
def Spelled (json : Json) (text : String) : Prop :=
  ∃ spelling blanks, Spells (.value json) spelling ∧ blanks.all isBlank = true ∧ text.toList = spelling ++ blanks

mutual

/-- The value can be written and read without loss: every number in it is an integer in the range of doubles, and no
object has two fields of one name. -/
def Regular : Json → Prop
  | .int value => exceedsDoubles value.natAbs 0 = false
  | .decimal .. => False
  | .arr items => RegularItems items
  | .obj fields => (fields.map Prod.fst).Nodup ∧ RegularFields fields
  | _ => True

/-- All items of an array are regular. -/
def RegularItems : List Json → Prop
  | item :: rest => Regular item ∧ RegularItems rest
  | [] => True

/-- All fields of an object are regular. -/
def RegularFields : List (String × Json) → Prop
  | (_, value) :: rest => Regular value ∧ RegularFields rest
  | [] => True

end

theorem regularItems_iff {items : List Json} : RegularItems items ↔ ∀ item ∈ items, Regular item := by
  induction items with
  | nil => simp [RegularItems]
  | cons item rest ih => simp [RegularItems, ih]

theorem regularFields_iff {fields : List (String × Json)} :
    RegularFields fields ↔ ∀ field ∈ fields, Regular field.2 := by
  induction fields with
  | nil => simp [RegularFields]
  | cons field rest ih => simp [RegularFields, ih]

/-- An array nests no deeper than its items allow. -/
theorem heightOfItems_le_iff {items : List Json} {levels : Nat} :
    heightOfItems items ≤ levels ↔ ∀ item ∈ items, item.height ≤ levels := by
  induction items with
  | nil => simp [heightOfItems]
  | cons item rest ih => rw [heightOfItems, Nat.max_le, ih, List.forall_mem_cons]

/-- An object nests no deeper than its fields allow. -/
theorem heightOfFields_le_iff {fields : List (String × Json)} {levels : Nat} :
    heightOfFields fields ≤ levels ↔ ∀ field ∈ fields, field.2.height ≤ levels := by
  induction fields with
  | nil => simp [heightOfFields]
  | cons field rest ih => rw [heightOfFields, Nat.max_le, ih, List.forall_mem_cons]

/-- Regular, and nested no deeper than the levels. -/
def Readable (levels : Nat) (json : Json) : Prop := Regular json ∧ json.height ≤ levels

section Readable

variable {levels : Nat}

attribute [local simp] Readable Regular height

/-- More levels may be allowed. -/
theorem Readable.mono {json : Json} {more : Nat} (readable : Readable levels json) (hMore : levels ≤ more) :
    Readable more json :=
  ⟨readable.1, Nat.le_trans readable.2 hMore⟩

@[simp] theorem readable_null : Readable (levels + 1) .null := by simp

@[simp] theorem readable_bool (value : Bool) : Readable (levels + 1) (.bool value) := by
  simp

@[simp] theorem readable_int {value : Int} :
    Readable (levels + 1) (.int value) ↔ exceedsDoubles value.natAbs 0 = false := by
  simp

@[simp] theorem readable_str (value : String) : Readable (levels + 1) (.str value) := by
  simp

@[simp] theorem readable_arr {items : List Json} :
    Readable (levels + 1) (.arr items) ↔ ∀ item ∈ items, Readable levels item := by
  simp [regularItems_iff, heightOfItems_le_iff, forall_and]

@[simp] theorem readable_obj {fields : List (String × Json)} :
    Readable (levels + 1) (.obj fields) ↔ (fields.map Prod.fst).Nodup ∧ ∀ field ∈ fields, Readable levels field.2 := by
  simp [regularFields_iff, heightOfFields_le_iff, forall_and, and_assoc]

end Readable

/-! ### The writer's text -/

/-- Each digit is read as what it was written for. -/
theorem hexValue?_hexDigit : ∀ n < 16, hexValue? (hexDigit n) = some n := by
  decide

/-- A character as the writer puts it into a string. -/
theorem Quoted.escapeChar (c : Char) {chars text : List Char} (hRest : Quoted chars text) :
    Quoted (c :: chars) ((escapeChar c).toList ++ text) := by
  rw [Json.escapeChar]
  split_ifs with hQuote hBackslash hLine hControl
  · exact hQuote ▸ .escaped .quote hRest
  · exact hBackslash ▸ .escaped .backslash hRest
  · exact hLine ▸ .escaped .lineFeed hRest
  · have hValue : c.toNat = ((0 * 16 + 0) * 16 + c.toNat / 16) * 16 + c.toNat % 16 := by omega
    have hUnit : CodeUnit c.toNat ['0', '0', hexDigit (c.toNat / 16), hexDigit (c.toNat % 16)] := by
      conv => arg 1; rw [hValue]
      exact .digits rfl rfl (hexValue?_hexDigit _ (by omega)) (hexValue?_hexDigit _ (by omega))
    have hEscape := Escape.unit hUnit (.inl (by omega))
    rw [Char.ofNat_toNat] at hEscape
    simpa using Quoted.escaped hEscape hRest
  · simpa using Quoted.plain (by omega) hQuote hBackslash hRest

/-- A string in quotes, character by character. -/
theorem toList_quote (text : String) :
    (quote text).toList = '"' :: text.toList.flatMap (fun c => (escapeChar c).toList) ++ ['"'] := by
  have hFold (chars : List Char) (out : String) : (chars.foldl (fun out c => out ++ escapeChar c) out).toList =
      out.toList ++ chars.flatMap (fun c => (escapeChar c).toList) := by
    induction chars generalizing out with
    | nil => simp
    | cons c rest ih => simp [ih]
  simp [quote, String.foldl_eq_foldl_toList, hFold]

/-- What the writer quotes is one of the texts of the string. -/
theorem exists_quoted (text : String) : ∃ rest, (quote text).toList = '"' :: rest ∧ Quoted text.toList rest := by
  refine ⟨_, toList_quote text, ?_⟩
  induction text.toList with
  | nil => exact .close
  | cons c rest ih => simpa using Quoted.escapeChar c ih

mutual

/-- What the writer adds to the text before it spells the value. -/
theorem spells_writeAfter (out : String) : ∀ json : Json, Regular json →
    ∃ text, (writeAfter out json).toList = out.toList ++ text ∧ Spells (.value json) text
  | .null, _ => ⟨_, by simp [writeAfter], .nullWord⟩
  | .bool true, _ => ⟨_, by simp [writeAfter], .trueWord⟩
  | .bool false, _ => ⟨_, by simp [writeAfter], .falseWord⟩
  | .int value, _ => ⟨_, by simp [writeAfter], .int value⟩
  | .decimal .., hRegular => hRegular.elim
  | .str value, _ => by
    obtain ⟨text, hText, hQuoted⟩ := exists_quoted value
    exact ⟨_, by simp [writeAfter, hText], .str hQuoted⟩
  | .arr [], _ => ⟨['[', ']'], by simp [writeAfter, writeItems], .noItems (rfl : [].all isBlank = true)⟩
  | .arr (item :: rest), hRegular => by
    obtain ⟨text, hText, hItem⟩ := spells_writeAfter (out ++ "[") item hRegular.1
    obtain ⟨tail, hTail, hRest⟩ := spells_writeItems (writeAfter (out ++ "[") item) rest hRegular.2
    exact ⟨_, by simp [writeAfter, writeItems, hTail, hText], .arr hItem hRest⟩
  | .obj [], _ => ⟨['\x7b', '\x7d'], by simp [writeAfter, writeFields], .noFields (rfl : [].all isBlank = true)⟩
  | .obj ((name, value) :: rest), hRegular => by
    obtain ⟨text, hText, hField⟩ := spells_writeField (out ++ "\x7b") name value hRegular.2.1
    obtain ⟨tail, hTail, hRest⟩ :=
      spells_writeFields (writeAfter (out ++ "\x7b" ++ quote name ++ ":") value) rest hRegular.2.2
    exact ⟨_, by simp [writeAfter, writeFields, hTail, hText], .obj hField hRest⟩

/-- What the writer adds for further items, and the bracket after them. -/
theorem spells_writeItems (out : String) : ∀ items : List Json, RegularItems items →
    ∃ tail, (writeItems out false items ++ "]").toList = out.toList ++ tail ∧ Spells (.items items) tail
  | [], _ => ⟨_, by simp [writeItems], .endItems⟩
  | item :: rest, hRegular => by
    obtain ⟨text, hText, hItem⟩ := spells_writeAfter (out ++ ",") item hRegular.1
    obtain ⟨tail, hTail, hRest⟩ := spells_writeItems (writeAfter (out ++ ",") item) rest hRegular.2
    exact ⟨_, by simp [writeItems, hTail, hText], .nextItem hItem hRest⟩

/-- What the writer adds for a field. -/
theorem spells_writeField (out name : String) (value : Json) (hRegular : Regular value) :
    ∃ text, (writeAfter (out ++ quote name ++ ":") value).toList = out.toList ++ text ∧
      Spells (.field name value) text := by
  obtain ⟨quoted, hQuote, hQuoted⟩ := exists_quoted name
  obtain ⟨text, hText, hValue⟩ := spells_writeAfter (out ++ quote name ++ ":") value hRegular
  exact ⟨_, by simp [hText, hQuote], .field hQuoted (rfl : [].all isBlank = true) hValue⟩

/-- What the writer adds for further fields, and the brace after them. -/
theorem spells_writeFields (out : String) : ∀ fields : List (String × Json), RegularFields fields →
    ∃ tail, (writeFields out false fields ++ "\x7d").toList = out.toList ++ tail ∧ Spells (.fields fields) tail
  | [], _ => ⟨_, by simp [writeFields], .endFields⟩
  | (name, value) :: rest, hRegular => by
    obtain ⟨text, hText, hField⟩ := spells_writeField (out ++ ",") name value hRegular.1
    obtain ⟨tail, hTail, hRest⟩ :=
      spells_writeFields (writeAfter (out ++ "," ++ quote name ++ ":") value) rest hRegular.2
    exact ⟨_, by simp [writeFields, hTail, hText], .nextField hField hRest⟩

end

/-- The text of the writer, which has no blanks after it. -/
theorem spelled_render {json : Json} (hRegular : Regular json) : Spelled json (render json) := by
  obtain ⟨text, hText, hSpells⟩ := spells_writeAfter "" json hRegular
  exact ⟨text, [], hSpells, rfl, by simpa [render] using hText⟩

end Decompiler.Json
