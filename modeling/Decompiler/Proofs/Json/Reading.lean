import Decompiler.Proofs.Json.Spelling
import Mathlib.Data.List.DropRight

/-!
The reader takes every spelling of a regular value back to the value. It counts its steps and the open brackets down;
the length of the text and the height of the value are enough for both.
-/

namespace Decompiler.Json

variable {text rest : List Char} {json : Json}

/-! ### Numbers -/

/-- The text does not go on with the number before it. -/
def Delimited (rest : List Char) : Prop :=
  ∀ c ∈ rest.head?, c.isDigit = false ∧ c ≠ '.' ∧ c ≠ 'e' ∧ c ≠ 'E'

/-- The value of the decimal digits of a number is the number. -/
theorem natOfDigits_toDigits (n : Nat) : natOfDigits (Nat.toDigits 10 n) = n := by
  have hValue : Nat.ofDigitChars 10 (Nat.toDigits 10 n) 0 = n := Nat.ofDigitChars_ten_toDigits
  rw [Nat.ofDigitChars_eq_foldl] at hValue
  simp only [Nat.mul_comm 10] at hValue
  exact hValue

/-- A number has a first digit. -/
theorem exists_toDigits_cons (n : Nat) :
    ∃ c digits, Nat.toDigits 10 n = c :: digits ∧ c.isDigit = true := by
  obtain ⟨c, digits, hDigits⟩ := List.exists_cons_of_ne_nil (Nat.toDigits_ne_nil (n := n) (b := 10))
  exact ⟨c, digits, hDigits, Nat.isDigit_of_mem_toDigits (by decide) (by decide) (hDigits ▸ List.mem_cons_self)⟩

/-- The digits of a positive number do not start with a zero, which the reader would refuse. -/
theorem head?_toDigits_ne {n : Nat} (hPositive : n ≠ 0) : (Nat.toDigits 10 n).head? ≠ some '0' := by
  induction n using Nat.strongRecOn with
  | _ n ih =>
    rw [Nat.toDigits_eq_if (by decide)]
    split_ifs with hSmall
    · have hDigit : ∀ m < 10, m ≠ 0 → [m.digitChar].head? ≠ some '0' := by decide
      exact hDigit n hSmall hPositive
    · rw [List.head?_append_of_ne_nil _ Nat.toDigits_ne_nil]
      exact ih (n / 10) (by omega) (by omega)

/-- The reader takes all digits and stops at the first character that is none. -/
theorem readDigits_toDigits (n : Nat) (hRest : Delimited rest) :
    readDigits (Nat.toDigits 10 n ++ rest) = .ok (Nat.toDigits 10 n, rest) := by
  have hDigits : ∀ c ∈ Nat.toDigits 10 n, c.isDigit = true :=
    fun c => Nat.isDigit_of_mem_toDigits (by decide) (by decide)
  have hSpan : rest.takeWhile Char.isDigit = [] ∧ rest.dropWhile Char.isDigit = rest := by
    cases rest with
    | nil => exact ⟨rfl, rfl⟩
    | cons c rest => simp [(hRest c rfl).1]
  rw [readDigits, List.takeWhile_append_of_pos hDigits, List.dropWhile_append_of_pos hDigits, hSpan.1, hSpan.2,
    List.append_nil]
  split
  · exact absurd ‹_› Nat.toDigits_ne_nil
  · rfl

/-- Zero or digits without a leading zero make up the whole part. -/
theorem readWhole_toDigits (n : Nat) (hRest : Delimited rest) :
    readWhole (Nat.toDigits 10 n ++ rest) = .ok (Nat.toDigits 10 n, rest) := by
  by_cases hZero : n = 0
  · rw [hZero, Nat.toDigits_zero]
    rfl
  · unfold readWhole
    split
    next hText =>
      obtain ⟨c, digits, hDigits, -⟩ := exists_toDigits_cons n
      rw [hDigits, List.cons_append, List.cons.injEq] at hText
      exact absurd (by rw [hDigits, hText.1, List.head?_cons]) (head?_toDigits_ne hZero)
    next => exact readDigits_toDigits n hRest

theorem readSign_toDigits (n : Nat) (rest : List Char) :
    readSign (Nat.toDigits 10 n ++ rest) = (false, Nat.toDigits 10 n ++ rest) := by
  obtain ⟨c, digits, hDigits, hDigit⟩ := exists_toDigits_cons n
  have hNoSign : c ≠ '-' := by
    rintro rfl
    exact absurd hDigit (by decide)
  simp [hDigits, readSign, hNoSign]

/-- An integer has no fraction to be read. -/
theorem readFraction_of_delimited (hRest : Delimited rest) : readFraction rest = .ok (none, rest) := by
  cases rest with
  | nil => rfl
  | cons c rest => simp [readFraction, (hRest c rfl).2.1]

/-- An integer has no exponent to be read. -/
theorem readExponent_of_delimited (hRest : Delimited rest) : readExponent rest = .ok (none, rest) := by
  cases rest with
  | nil => rfl
  | cons c rest => simp [readExponent, (hRest c rfl).2.2]

/-- The digits of a number after its sign, which a zero does not have, are read as an integer. -/
theorem readNumber_of_sign {negative : Bool} {n : Nat} (hSign : readSign text = (negative, Nat.toDigits 10 n ++ rest))
    (hRange : exceedsDoubles n 0 = false) (hSigned : ¬(negative = true ∧ n = 0)) (hRest : Delimited rest) :
    readNumber text = .ok (.int (if negative then -(n : Int) else n), rest) := by
  have hAfter : rest.head?.any Char.isDigit = false := by
    cases rest with
    | nil => rfl
    | cons c rest => exact (hRest c rfl).1
  simp [readNumber, hSign, readWhole_toDigits n hRest, readFraction_of_delimited hRest, readExponent_of_delimited hRest,
    natOfDigits_toDigits, hAfter, hRange, hSigned, bind, Except.bind, pure, Except.pure]

theorem toList_ofNat (n : Nat) : (toString (Int.ofNat n)).toList = Nat.toDigits 10 n := by simp [Int.repr_eq_if]

theorem toList_negSucc (n : Nat) : (toString (Int.negSucc n)).toList = '-' :: Nat.toDigits 10 (n + 1) := by
  simp [Int.repr]

/-- An integer is read back from its decimal text, whatever stands after it. -/
theorem readNumber_toString (value : Int) (hRange : exceedsDoubles value.natAbs 0 = false) (hRest : Delimited rest) :
    readNumber ((toString value).toList ++ rest) = .ok (.int value, rest) := by
  cases value with
  | ofNat n =>
    rw [toList_ofNat, readNumber_of_sign (readSign_toDigits n rest) hRange (by simp) hRest]
    rfl
  | negSucc n =>
    rw [toList_negSucc, readNumber_of_sign (n := n + 1) rfl hRange (by simp) hRest]
    rfl

/-- The first character of an integer tells it from every other value. -/
theorem exists_toString_cons (value : Int) :
    ∃ c digits, (toString value).toList = c :: digits ∧ (c = '-' ∨ c.isDigit = true) := by
  cases value with
  | ofNat n =>
    obtain ⟨c, digits, hDigits, hDigit⟩ := exists_toDigits_cons n
    exact ⟨c, digits, (toList_ofNat n).trans hDigits, .inr hDigit⟩
  | negSucc n => exact ⟨'-', Nat.toDigits 10 (n + 1), toList_negSucc n, .inl rfl⟩

/-! ### Strings -/

/-- Four digits of either case give the code unit that they spell. -/
theorem CodeUnit.reads {value : Nat} {digits : List Char} (hUnit : CodeUnit value digits) (rest : List Char) :
    readUnit (digits ++ rest) = .ok (value, rest) := by
  obtain ⟨hA, hB, hC, hD⟩ := hUnit
  simp [readUnit, hA, hB, hC, hD]

/-- An escape gives the character that it stands for, also one from two surrogates. -/
theorem Escape.reads {c : Char} {code : List Char} (hEscape : Escape c code) (rest : List Char) :
    readEscape (code ++ rest) = .ok (c, rest) := by
  cases hEscape with
  | unit hUnit hValue => simp [readEscape, hUnit.reads, hValue, bind, Except.bind, pure, Except.pure]
  | @surrogates high low first second hFirst hSecond hHigh hHighEnd hLow hLowEnd =>
    have hSurrogate : ¬(high < 0xD800 ∨ 0xDFFF < high) := by omega
    have hLeading : ¬0xDC00 ≤ high := by omega
    have hTrailing : ¬(low < 0xDC00 ∨ 0xDFFF < low) := by omega
    simp [readEscape, hFirst.reads, hSecond.reads, hSurrogate, hLeading, hTrailing, bind, Except.bind, pure,
      Except.pure]
  | _ => rfl

/-- The reader takes one spelled character at a time and stops behind the closing quote. -/
theorem Quoted.reads {chars : List Char} (hQuoted : Quoted chars text) (rest : List Char) {fuel : Nat}
    (hFuel : text.length ≤ fuel) (done : List Char) :
    readStringFrom fuel done (text ++ rest) = .ok (String.ofList (done.reverse ++ chars), rest) := by
  induction hQuoted generalizing fuel done with
  | close =>
    obtain _ | fuel := fuel
    · simp at hFuel
    simp [readStringFrom]
  | @plain c chars text hControl hQuote hBackslash _ ih =>
    obtain _ | fuel := fuel
    · simp at hFuel
    have hRest := ih (by simpa using hFuel) (c :: done)
    simp [readStringFrom, hControl, hRest]
  | @escaped c code chars text hEscape _ ih =>
    obtain _ | fuel := fuel
    · simp at hFuel
    have hShorter : text.length ≤ fuel := by
      rw [List.length_append, List.length_cons] at hFuel
      omega
    have hRest := ih hShorter (c :: done)
    simp [readStringFrom, hEscape.reads, hRest, bind, Except.bind]

theorem readString_quoted {value : String} (hQuoted : Quoted value.toList text) (rest : List Char) :
    readString (text ++ rest) = .ok (value, rest) := by
  rw [readString, hQuoted.reads rest (by rw [List.length_append]; omega)]
  simp

/-! ### Blanks -/

@[simp] theorem skipBlanks_cons (c : Char) (text : List Char) :
    skipBlanks (c :: text) = if isBlank c then skipBlanks text else c :: text := by
  simp [skipBlanks, List.dropWhile_cons]

/-- Blanks before a value are skipped, however many there are. -/
theorem skipBlanks_append {blanks : List Char} (hBlanks : blanks.all isBlank = true) (text : List Char) :
    skipBlanks (blanks ++ text) = skipBlanks text :=
  List.dropWhile_append_of_pos (by simpa using hBlanks)

theorem skipBlanks_skipBlanks (text : List Char) : skipBlanks (skipBlanks text) = skipBlanks text :=
  List.dropWhile_idempotent ..

theorem read_skipBlanks (fuel levels : Nat) (goal : Goal) (text : List Char) :
    read fuel levels goal (skipBlanks text) = read fuel levels goal text := by
  cases fuel with
  | zero => simp only [read]
  | succ fuel => cases goal <;> simp only [read, skipBlanks_skipBlanks]

/-- A blank where a part may begin takes no step of the reader. -/
theorem read_blank {c : Char} (hBlank : isBlank c = true) (fuel levels : Nat) (goal : Goal) (text : List Char) :
    read fuel levels goal (c :: text) = read fuel levels goal text := by
  rw [← read_skipBlanks, skipBlanks_cons, if_pos hBlank, read_skipBlanks]

theorem Delimited.blank {c : Char} (hBlank : isBlank c = true) : Delimited (c :: text) := by
  intro first hFirst
  obtain rfl : c = first := by simpa using hFirst
  simp only [isBlank, Bool.or_eq_true, decide_eq_true_eq] at hBlank
  obtain ((rfl | rfl) | rfl) | rfl := hBlank <;> decide

/-- A number is not mistaken for a blank. -/
theorem not_blank_of_number {c : Char} (hStart : c = '-' ∨ c.isDigit = true) : isBlank c = false := by
  by_contra hBlank
  simp only [isBlank, Bool.or_eq_true, decide_eq_true_eq, Bool.not_eq_false] at hBlank
  obtain ((rfl | rfl) | rfl) | rfl := hBlank <;> exact absurd hStart (by decide)

/-! ### What stands after a part -/

/-- After an item comes a comma, a bracket or a blank, so a number ends there. -/
theorem Spells.items_delimited {items : List Json} (hSpells : Spells (.items items) text) (rest : List Char) :
    Delimited (text ++ rest) := by
  cases hSpells with
  | blank hBlank _ => exact .blank hBlank
  | endItems | nextItem => simp [Delimited]

/-- After the value of a field comes a comma, a brace or a blank, so a number ends there. -/
theorem Spells.fields_delimited {fields : List (String × Json)} (hSpells : Spells (.fields fields) text)
    (rest : List Char) : Delimited (text ++ rest) := by
  cases hSpells with
  | blank hBlank _ => exact .blank hBlank
  | endFields | nextField => simp [Delimited]

/-- A value does not start with a closing bracket, so that an array with a first item is told from an empty one. -/
theorem Spells.not_closing (hSpells : Spells (.value json) text) (rest inner : List Char) :
    skipBlanks (text ++ rest) ≠ ']' :: inner := by
  generalize hPart : Part.value json = part at hSpells
  induction hSpells with
  | blank hBlank _ ih => simpa [hBlank] using ih hPart
  | int value =>
    obtain ⟨c, digits, hText, hStart⟩ := exists_toString_cons value
    have hOther : c ≠ ']' := by
      rintro rfl
      exact absurd hStart (by decide)
    rw [hText, List.cons_append, skipBlanks_cons, not_blank_of_number hStart]
    simp [hOther]
  | nullWord | trueWord | falseWord | str | noItems | arr | noFields | obj => simp [isBlank]
  | _ => cases hPart

/-! ### One step of the reader -/

/-- Whatever starts like a number is read as one. -/
theorem read_number {c : Char} (hStart : c = '-' ∨ c.isDigit = true) (fuel levels : Nat) (text : List Char) :
    read (fuel + 1) levels .value (c :: text) = readNumber (c :: text) := by
  have hOther : ∀ other, ¬(other = '-' ∨ other.isDigit = true) → c ≠ other :=
    fun other hNot hSame => hNot (hSame ▸ hStart)
  have hQuote := hOther '"' (by decide)
  have hBracket := hOther '[' (by decide)
  have hBrace := hOther '\x7b' (by decide)
  have hTrue := hOther 't' (by decide)
  have hFalse := hOther 'f' (by decide)
  have hNull := hOther 'n' (by decide)
  simp [read, not_blank_of_number hStart, hStart]

/-- An opening bracket takes one level and leads to the first item. -/
theorem read_array {fuel levels : Nat} (hItem : ∀ inner, skipBlanks text ≠ ']' :: inner) :
    read (fuel + 1) (levels + 1) .value ('[' :: text) = (do
      let (value, rest) ← read fuel levels .value text
      read fuel levels (.items [value]) rest) := by
  simp [read, isBlank, read_skipBlanks]

/-- A comma within an array leads to the next item, at the same level. -/
theorem read_nextItem (fuel levels : Nat) (done : List Json) (text : List Char) :
    read (fuel + 1) levels (.items done) (',' :: text) = (do
      let (value, rest) ← read fuel levels .value text
      read fuel levels (.items (value :: done)) rest) := by
  simp [read, isBlank]

/-- An opening brace takes one level and leads to the first field. -/
theorem read_object {fuel levels : Nat} {inner : List Char} (hField : skipBlanks text = '"' :: inner) :
    read (fuel + 1) (levels + 1) .value ('\x7b' :: text) = (do
      let (name, value, rest) ← read.readField fuel levels inner
      read fuel levels (.fields [(name, value)]) rest) := by
  simp [read, isBlank, hField]

/-- A comma within an object leads to the next field, at the same level. -/
theorem read_nextField {fuel levels : Nat} {inner : List Char} (done : List (String × Json))
    (hField : skipBlanks text = '"' :: inner) :
    read (fuel + 1) levels (.fields done) (',' :: text) = (do
      let (name, value, rest) ← read.readField fuel levels inner
      read fuel levels (.fields (setField done name value)) rest) := by
  simp [read, isBlank, hField]

/-- A field with a new name is put behind the fields before it. -/
theorem setField_of_new {done : List (String × Json)} {name : String} (hNew : name ∉ done.map Prod.fst) (value : Json) :
    setField done name value = done ++ [(name, value)] := by
  have hNone : done.any (·.1 == name) = false :=
    List.any_eq_false.mpr fun field hField => by
      simpa using fun hSame => hNew (List.mem_map.mpr ⟨field, hField, hSame⟩)
  rw [setField, hNone]
  rfl

/-! ### Whole values -/

/-- With steps and levels enough the reader takes the part off the text and nothing after it. -/
def Reads : Part → List Char → Prop
  | .value json, text => ∀ {fuel levels rest}, text.length ≤ fuel → json.height ≤ levels → Regular json →
      Delimited rest → read (fuel + 1) levels .value (text ++ rest) = .ok (json, rest)
  | .field name value, text => ∀ {fuel levels rest}, text.length ≤ fuel → value.height ≤ levels → Regular value →
      Delimited rest → ∃ inner, skipBlanks (text ++ rest) = '"' :: inner ∧
        read.readField (fuel + 1) levels inner = .ok (name, value, rest)
  | .items items, text => ∀ {fuel levels rest} done, text.length ≤ fuel → heightOfItems items ≤ levels →
      RegularItems items →
      read (fuel + 1) levels (.items done) (text ++ rest) = .ok (.arr (done.reverse ++ items), rest)
  | .fields fields, text => ∀ {fuel levels rest} done, text.length ≤ fuel → heightOfFields fields ≤ levels →
      RegularFields fields → ((done ++ fields).map Prod.fst).Nodup →
      read (fuel + 1) levels (.fields done) (text ++ rest) = .ok (.obj (done ++ fields), rest)

namespace Reads

variable {part : Part} {item value : Json} {items : List Json} {name : String} {fields : List (String × Json)}
  {tail : List Char}

theorem blank {c : Char} (hBlank : isBlank c = true) (reads : Reads part text) : Reads part (c :: text) := by
  cases part with
  | field name value =>
    intro fuel levels rest hFuel
    simpa only [List.cons_append, skipBlanks_cons, if_pos hBlank] using reads (Nat.le_of_succ_le hFuel)
  | value json =>
    intro fuel levels rest hFuel
    simpa only [List.cons_append, read_blank hBlank] using reads (Nat.le_of_succ_le hFuel)
  | items | fields =>
    intro fuel levels rest done hFuel
    simpa only [List.cons_append, read_blank hBlank] using reads done (Nat.le_of_succ_le hFuel)

theorem int (value : Int) : Reads (.value (.int value)) (toString value).toList := by
  intro fuel levels rest _ _ hRange hRest
  obtain ⟨c, digits, hText, hStart⟩ := exists_toString_cons value
  have hNumber := readNumber_toString value hRange hRest
  rw [hText, List.cons_append] at hNumber ⊢
  rw [read_number hStart, hNumber]

theorem str {value : String} (hQuoted : Quoted value.toList text) : Reads (.value (.str value)) ('"' :: text) := by
  intro fuel levels rest _ _ _ _
  simp [read, isBlank, readString_quoted hQuoted, bind, Except.bind, pure, Except.pure]

/-- An array takes one level and one step more than what is in it. -/
theorem arr (hItem : Spells (.value item) text) (hItems : Spells (.items items) tail)
    (readsItem : Reads (.value item) text) (readsItems : Reads (.items items) tail) :
    Reads (.value (.arr (item :: items))) ('[' :: text ++ tail) := by
  intro fuel levels rest hFuel hHeight hRegular _
  rw [List.length_append, List.length_cons] at hFuel
  rw [height, heightOfItems] at hHeight
  obtain _ | fuel := fuel
  · omega
  obtain _ | levels := levels
  · omega
  have hFirst : read (fuel + 1) levels .value (text ++ (tail ++ rest)) = .ok (item, tail ++ rest) :=
    readsItem (by omega) (by omega) hRegular.1 (hItems.items_delimited rest)
  have hOthers : read (fuel + 1) levels (.items [item]) (tail ++ rest) = .ok (.arr (item :: items), rest) :=
    readsItems [item] (by omega) (by omega) hRegular.2
  rw [List.append_assoc, List.cons_append, read_array (hItem.not_closing _), hFirst]
  exact hOthers

theorem nextItem (hItems : Spells (.items items) tail) (readsItem : Reads (.value item) text)
    (readsItems : Reads (.items items) tail) : Reads (.items (item :: items)) (',' :: text ++ tail) := by
  intro fuel levels rest done hFuel hHeight hRegular
  rw [List.length_append, List.length_cons] at hFuel
  rw [heightOfItems] at hHeight
  obtain _ | fuel := fuel
  · omega
  have hNext : read (fuel + 1) levels .value (text ++ (tail ++ rest)) = .ok (item, tail ++ rest) :=
    readsItem (by omega) (by omega) hRegular.1 (hItems.items_delimited rest)
  have hOthers : read (fuel + 1) levels (.items (item :: done)) (tail ++ rest) =
      .ok (.arr ((item :: done).reverse ++ items), rest) :=
    readsItems (item :: done) (by omega) (by omega) hRegular.2
  rw [List.reverse_cons, List.append_assoc] at hOthers
  rw [List.append_assoc, List.cons_append, read_nextItem, hNext]
  exact hOthers

/-- A field is a quoted name, a colon and a value, with blanks around the colon. -/
theorem field {quoted blanks : List Char} (hQuoted : Quoted name.toList quoted) (hBlanks : blanks.all isBlank = true)
    (reads : Reads (.value value) text) : Reads (.field name value) ('"' :: quoted ++ blanks ++ ':' :: text) := by
  intro fuel levels rest hFuel hHeight hRegular hRest
  rw [List.length_append, List.length_cons] at hFuel
  have hValue : read (fuel + 1) levels .value (text ++ rest) = .ok (value, rest) :=
    reads (by omega) hHeight hRegular hRest
  refine ⟨quoted ++ (blanks ++ ':' :: (text ++ rest)), by simp [isBlank], ?_⟩
  rw [read.readField, readString_quoted hQuoted]
  simp [skipBlanks_append hBlanks, isBlank, hValue, bind, Except.bind, pure, Except.pure]

/-- An object takes one level and one step more than what is in it. -/
theorem obj (hFields : Spells (.fields fields) tail) (readsField : Reads (.field name value) text)
    (readsFields : Reads (.fields fields) tail) :
    Reads (.value (.obj ((name, value) :: fields))) ('\x7b' :: text ++ tail) := by
  intro fuel levels rest hFuel hHeight hRegular _
  rw [List.length_append, List.length_cons] at hFuel
  rw [height, heightOfFields] at hHeight
  obtain _ | fuel := fuel
  · omega
  obtain _ | levels := levels
  · omega
  obtain ⟨inner, hInner, hFirst⟩ : ∃ inner, skipBlanks (text ++ (tail ++ rest)) = '"' :: inner ∧
      read.readField (fuel + 1) levels inner = .ok (name, value, tail ++ rest) :=
    readsField (by omega) (by omega) hRegular.2.1 (hFields.fields_delimited rest)
  have hOthers : read (fuel + 1) levels (.fields [(name, value)]) (tail ++ rest) =
      .ok (.obj ((name, value) :: fields), rest) :=
    readsFields [(name, value)] (by omega) (by omega) hRegular.2.2 hRegular.1
  rw [List.append_assoc, List.cons_append, read_object hInner, hFirst]
  exact hOthers

/-- Since the names of an object differ, no later field takes the place of an earlier one. -/
theorem nextField (hFields : Spells (.fields fields) tail) (readsField : Reads (.field name value) text)
    (readsFields : Reads (.fields fields) tail) : Reads (.fields ((name, value) :: fields)) (',' :: text ++ tail) := by
  intro fuel levels rest done hFuel hHeight hRegular hNodup
  rw [List.length_append, List.length_cons] at hFuel
  rw [heightOfFields] at hHeight
  obtain _ | fuel := fuel
  · omega
  have hNew : name ∉ done.map Prod.fst := by
    rw [List.map_append, List.nodup_append] at hNodup
    exact fun hOld => hNodup.2.2 name hOld name (by simp) rfl
  obtain ⟨inner, hInner, hNext⟩ : ∃ inner, skipBlanks (text ++ (tail ++ rest)) = '"' :: inner ∧
      read.readField (fuel + 1) levels inner = .ok (name, value, tail ++ rest) :=
    readsField (by omega) (by omega) hRegular.1 (hFields.fields_delimited rest)
  have hSame : done ++ (name, value) :: fields = done ++ [(name, value)] ++ fields := by simp
  rw [hSame] at hNodup ⊢
  rw [List.append_assoc, List.cons_append, read_nextField done hInner, hNext, ← setField_of_new hNew]
  exact readsFields _ (by omega) (by omega) hRegular.2 (by rwa [setField_of_new hNew])

end Reads

/-- By the rules of the grammar, each with the step of the reader that takes it. -/
theorem Spells.reads {part : Part} (hSpells : Spells part text) : Reads part text := by
  induction hSpells with
  | blank hBlank _ ih => exact ih.blank hBlank
  | nullWord | trueWord | falseWord =>
    intro fuel levels rest _ _ _ _
    simp [read, readWord, isBlank]
  | int value => exact Reads.int value
  | str hQuoted => exact Reads.str hQuoted
  | noItems hBlanks | noFields hBlanks =>
    intro fuel levels rest _ hHeight _ _
    obtain _ | levels := levels
    · simp [height] at hHeight
    simp [read, isBlank, skipBlanks_append hBlanks]
  | arr hItem hItems ihItem ihItems => exact Reads.arr hItem hItems ihItem ihItems
  | obj _ hFields ihField ihFields => exact Reads.obj hFields ihField ihFields
  | field hQuoted hBlanks _ ih => exact Reads.field hQuoted hBlanks ih
  | endItems =>
    intro fuel levels rest done _ _ _
    simp [read, isBlank]
  | nextItem _ hItems ihItem ihItems => exact Reads.nextItem hItems ihItem ihItems
  | endFields =>
    intro fuel levels rest done _ _ _ _
    simp [read, isBlank]
  | nextField _ hFields ihField ihFields => exact Reads.nextField hFields ihField ihFields

/-- Every text of a value is read back as the value. -/
theorem parse_spelled {text : String} (hSpelled : Spelled json text) (hReadable : Readable 127 json) :
    parse text = .ok json := by
  obtain ⟨spelling, blanks, hSpells, hBlanks, hText⟩ := hSpelled
  have hDelimited : Delimited blanks := by
    cases blanks with
    | nil => simp [Delimited]
    | cons c rest => exact .blank (List.all_eq_true.mp hBlanks c List.mem_cons_self)
  have hLength : spelling.length ≤ 2 * text.toList.length + 1 := by
    rw [hText, List.length_append]
    omega
  have hRead := hSpells.reads hLength hReadable.2 hReadable.1 hDelimited
  have hEnd : skipBlanks blanks = [] := by simpa [skipBlanks] using skipBlanks_append hBlanks []
  rw [← hText] at hRead
  rw [parse, hRead]
  simp [hEnd, bind, Except.bind, pure, Except.pure]

end Decompiler.Json
