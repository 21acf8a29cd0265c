import Decompiler.Event.FeedWriter
import Decompiler.Proofs.Json.Reading
import Mathlib.Data.List.Nodup

/-!
Reading a feed takes back what was written: units without floating-point constants come back from every text of their
JSON, alone or in an array. Each reader of a part undoes the writer of that part, and what is written stays within the
ranges and levels of the JSON reader.
-/

namespace Decompiler

/-! ### Mnemonics -/

namespace Opcode

theorem mem_all (op : Opcode) : op ∈ all := by
  have hPlace : all[op.ctorIdx]? = some op := by cases op <;> rfl
  exact List.mem_of_getElem? hPlace

/-- The bytes of a mnemonic as the digits of one number, so that mnemonics are compared as numbers. -/
def spelling (op : Opcode) : Nat :=
  op.mnemonic.toByteArray.data.toList.foldl (fun number byte => number * 256 + byte.toNat) 0

/-- No two instructions share a mnemonic. The numbers keep the check by evaluation small. -/
theorem nodup_spelling : (all.map spelling).Nodup := by
  decide +kernel

theorem mnemonic_injective : Function.Injective mnemonic := fun op other hSame =>
  List.inj_on_of_nodup_map nodup_spelling (mem_all op) (mem_all other) (by rw [spelling, spelling, hSame])

/-- The reader raises the letters before it looks a mnemonic up, and mnemonics have none to raise. -/
theorem mnemonic_upper (op : Opcode) : String.ofList (op.mnemonic.toList.map Char.toUpper) = op.mnemonic := by
  cases op <;> rfl

/-- Every instruction is found again by its mnemonic. -/
theorem ofMnemonic?_mnemonic (op : Opcode) : ofMnemonic? op.mnemonic = some op := by
  rw [ofMnemonic?, mnemonic_upper]
  obtain ⟨other, hFound⟩ : ∃ other, all.find? (·.mnemonic == op.mnemonic) = some other :=
    Option.isSome_iff_exists.mp (List.find?_isSome.mpr ⟨op, mem_all op, beq_self_eq_true _⟩)
  have hSame : other = op := mnemonic_injective (by simpa using List.find?_some hFound)
  exact hSame ▸ hFound

end Opcode

/-! ### Units without floating-point constants -/

/-- A constant of a floating-point type, which the feeds read back here do without. -/
def Constant.isFloating : Constant → Bool
  | .float _ | .double _ => true
  | _ => false

/-- The event pushes a floating-point constant. -/
def Event.pushesFloating : Event → Bool
  | .ldc constant => constant.isFloating
  | _ => false

/-- No instruction of the unit pushes a floating-point constant. -/
def CompiledUnit.WithoutFloating (unit : CompiledUnit) : Prop :=
  ∀ event ∈ unit.events, event.pushesFloating = false

/-! ### Fields -/

namespace Fields

variable {α : Type} {name other : String} {value : Json} {fields : List (String × Json)} {read : Json → Result α}
  {write : α → Json}

/-- The first field of the name is the one that is read. -/
@[simp] theorem field_cons_self : field (.obj ((name, value) :: fields)) name read = read value := by
  simp [field, Json.field?, expect, bind, Except.bind]

/-- Fields of other names are passed over. -/
theorem field?_cons_of_ne (hOther : name ≠ other) :
    Json.field? name (.obj ((other, value) :: fields)) = Json.field? name (.obj fields) := by
  simp [Json.field?, List.lookup_cons, beq_false_of_ne hOther]

@[simp] theorem field_cons_of_ne (hOther : name ≠ other) :
    field (.obj ((other, value) :: fields)) name read = field (.obj fields) name read := by
  rw [field, field, field?_cons_of_ne hOther]

@[simp] theorem withDefault_cons_self {default : α} :
    withDefault (.obj ((name, value) :: fields)) name default read = read value := by
  simp [withDefault, Json.field?]

@[simp] theorem withDefault_cons_of_ne {default : α} (hOther : name ≠ other) :
    withDefault (.obj ((other, value) :: fields)) name default read = withDefault (.obj fields) name default read := by
  rw [withDefault, withDefault, field?_cons_of_ne hOther]

@[simp] theorem optional_cons_of_ne (hOther : name ≠ other) :
    optional (.obj ((other, value) :: fields)) name read = optional (.obj fields) name read := by
  rw [optional, optional, Json.present?, Json.present?, field?_cons_of_ne hOther]

/-- A part that may be absent comes back. A value is never written as null, which would read as absent. -/
theorem optional_written (hReads : ∀ x, read (write x) = .ok x) (hPresent : ∀ x, write x ≠ .null) (value : Option α) :
    optional (.obj ((name, Feed.writeOptional write value) :: fields)) name read = .ok value := by
  cases value with
  | none => simp [optional, Json.present?, Json.field?, Feed.writeOptional]
  | some x =>
    have hValue : Json.present? name (.obj ((name, write x) :: fields)) = some (write x) := by
      simp [Json.present?, Json.field?, hPresent x]
    rw [Feed.writeOptional, optional, hValue]
    simp [hReads, Functor.map, Except.map]

/-! ### Values -/

/-- A number within the range of a reader passes its check. -/
theorem readRange_int {low high value : Int} (hLow : low ≤ value) (hHigh : value ≤ high) :
    readRange low high (.int value) = .ok value := by
  simp [readRange, expect, Json.int?, hLow, hHigh, bind, Except.bind, pure, Except.pure]

@[simp] theorem readString_str (text : String) : readString (.str text) = .ok text := rfl

@[simp] theorem readBool_bool (value : Bool) : readBool (.bool value) = .ok value := rfl

@[simp] theorem readUInt8_int (value : UInt8) : readUInt8 (.int value.toNat) = .ok value := by
  have hRange := value.toNat_lt
  rw [readUInt8, readRange_int (by omega) (by omega)]
  simp [bind, Except.bind, pure, Except.pure]

@[simp] theorem readUInt16_int (value : UInt16) : readUInt16 (.int value.toNat) = .ok value := by
  have hRange := value.toNat_lt
  rw [readUInt16, readRange_int (by omega) (by omega)]
  simp [bind, Except.bind, pure, Except.pure]

@[simp] theorem readUInt32_int (value : UInt32) : readUInt32 (.int value.toNat) = .ok value := by
  have hRange := value.toNat_lt
  rw [readUInt32, readRange_int (by omega) (by omega)]
  simp [bind, Except.bind, pure, Except.pure]

@[simp] theorem readInt32_int (value : Int32) : readInt32 (.int value.toInt) = .ok value := by
  rw [readInt32, readRange_int value.minValue_le_toInt value.toInt_le]
  simp [bind, Except.bind, pure, Except.pure]

@[simp] theorem readInt64_int (value : Int64) : readInt64 (.int value.toInt) = .ok value := by
  rw [readInt64, readRange_int value.minValue_le_toInt value.toInt_le]
  simp [bind, Except.bind, pure, Except.pure]

/-- Readers that undo a writer value by value undo it for a list. -/
theorem mapM_map {values : List α} (hReads : ∀ x ∈ values, read (write x) = .ok x) :
    (values.map write).mapM read = .ok values := by
  induction values with
  | nil => rfl
  | cons x rest ih =>
    have hRest := ih fun y hY => hReads y (List.mem_cons_of_mem x hY)
    simp [hReads x List.mem_cons_self, hRest, bind, Except.bind, pure, Except.pure]

theorem readList_map {values : List α} (hReads : ∀ x ∈ values, read (write x) = .ok x) :
    readList read (.arr (values.map write)) = .ok values := by
  simp [readList, expect, Json.arr?, mapM_map hReads, bind, Except.bind]

end Fields

namespace Feed

open Fields

/-! ### Events and units -/

@[simp] theorem readOpcode_mnemonic (op : Opcode) : readOpcode (.str op.mnemonic) = .ok op := by
  simp [readOpcode, Opcode.ofMnemonic?_mnemonic, bind, Except.bind, pure, Except.pure]

@[simp] theorem readFrameKind_feedName (kind : FrameKind) : readFrameKind (.str kind.feedName) = .ok kind := by
  cases kind <;> rfl

/-- Every constant that is not a floating-point number comes back with its kind. -/
theorem readConstant_writeConstant {constant : Constant} (hExact : constant.isFloating = false) :
    readConstant (writeConstant constant) = .ok constant := by
  cases constant with
  | float | double => cases hExact
  | _ => simp [readConstant, writeConstant]

/-- The owner, the name and the descriptor of a member come back. -/
theorem readMember_writeMember (member : MemberName) : readMember (.obj (writeMember member)) = .ok member := by
  simp [readMember, writeMember, bind, Except.bind, pure, Except.pure]

/-- Each kind of event has its own word and its own fields, by which it is read back. -/
theorem readEvent_writeEvent {event : Event} (hExact : event.pushesFloating = false) :
    readEvent (writeEvent event) = .ok event := by
  cases event with
  | ldc constant =>
    simp [readEvent, writeEvent, eventFields, readConstant_writeConstant hExact, bind, Except.bind, pure, Except.pure]
  | field op member | method op member =>
    simp [readEvent, writeEvent, eventFields, writeOpcode, readMember, writeMember, bind, Except.bind, pure,
      Except.pure]
  | invokeDynamic name descriptor bootstrap implementation recipe =>
    simp [readEvent, writeEvent, eventFields, readMember_writeMember, optional_written readMember_writeMember,
      optional_written readString_str, bind, Except.bind, pure, Except.pure]
  | switch default keys targets =>
    simp [readEvent, writeEvent, eventFields, writeNat, readList_map, bind, Except.bind, pure, Except.pure]
  | tryCatch start stop handler exception =>
    simp [readEvent, writeEvent, eventFields, writeNat, optional_written readString_str, bind, Except.bind, pure,
      Except.pure]
  | _ => simp [readEvent, writeEvent, eventFields, writeOpcode, writeNat, bind, Except.bind, pure, Except.pure]

/-- A unit comes back with all events and tables, the limits of its locals and its stack included. -/
theorem readUnit_writeUnit {unit : CompiledUnit} (hExact : unit.WithoutFloating) :
    readUnit (writeUnit unit) = .ok unit := by
  have hEvents := readList_map fun event hEvent => readEvent_writeEvent (hExact event hEvent)
  simp [readUnit, writeUnit, hEvents, bind, Except.bind, pure, Except.pure]

/-! ### The written JSON -/

section

open Json

/-- No integer of sixty-four bits is too large for the reader of numbers. -/
theorem exceedsDoubles_of_lt {n : Nat} (hSmall : n < 0x10000000000000000) : exceedsDoubles n 0 = false := by
  have hDigits : (Nat.toDigits 10 n).length ≤ 20 := by
    rw [Nat.length_toDigits_le_iff (by decide) (by decide)]
    omega
  have hLimit : 0x10000000000000000 ≤ doubleLimit := by decide +kernel
  rw [exceedsDoubles]
  split_ifs with hZero hLarge hTiny
  · rfl
  · omega
  · rfl
  · have hBelow : n < doubleLimit := by omega
    simpa using hBelow

@[simp] theorem exceedsDoubles_uint8 (value : UInt8) : exceedsDoubles value.toNat 0 = false :=
  exceedsDoubles_of_lt (by have hRange := value.toNat_lt; omega)

@[simp] theorem exceedsDoubles_uint16 (value : UInt16) : exceedsDoubles value.toNat 0 = false :=
  exceedsDoubles_of_lt (by have hRange := value.toNat_lt; omega)

@[simp] theorem exceedsDoubles_uint32 (value : UInt32) : exceedsDoubles value.toNat 0 = false :=
  exceedsDoubles_of_lt (by have hRange := value.toNat_lt; omega)

@[simp] theorem exceedsDoubles_int32 (value : Int32) : exceedsDoubles value.toInt.natAbs 0 = false :=
  exceedsDoubles_of_lt (by have hLow := value.le_toInt; have hHigh := value.toInt_lt; omega)

@[simp] theorem exceedsDoubles_int64 (value : Int64) : exceedsDoubles value.toInt.natAbs 0 = false :=
  exceedsDoubles_of_lt (by have hLow := value.le_toInt; have hHigh := value.toInt_lt; omega)

/-- A part that is left out is written as null, which every reader can take. -/
theorem readable_writeOptional {α : Type} {write : α → Json} {levels : Nat}
    (hReadable : ∀ x, Readable (levels + 1) (write x)) (value : Option α) :
    Readable (levels + 1) (writeOptional write value) := by
  cases value with
  | none => exact readable_null
  | some x => exact hReadable x

/-- A constant is one object of scalars. -/
theorem readable_writeConstant {constant : Constant} (hExact : constant.isFloating = false) :
    Readable 2 (writeConstant constant) := by
  cases constant with
  | float | double => cases hExact
  | _ => simp [writeConstant]

theorem readable_writeMember (member : MemberName) : Readable 2 (.obj (writeMember member)) := by
  simp [writeMember]

/-- An event nests its constants and members one level deep. -/
theorem readable_writeEvent {event : Event} (hExact : event.pushesFloating = false) :
    Readable 3 (writeEvent event) := by
  cases event with
  | ldc constant => simpa [writeEvent, eventFields] using readable_writeConstant hExact
  | field | method => simp [writeEvent, eventFields, writeOpcode, writeMember]
  | invokeDynamic name descriptor bootstrap implementation recipe =>
    have hImplementation := readable_writeOptional readable_writeMember implementation
    have hRecipe : Readable 2 (writeOptional .str recipe) := readable_writeOptional readable_str recipe
    simpa [writeEvent, eventFields, hImplementation, hRecipe] using readable_writeMember bootstrap
  | tryCatch start stop handler exception =>
    have hException : Readable 2 (writeOptional .str exception) := readable_writeOptional readable_str exception
    simp [writeEvent, eventFields, writeNat, hException]
  | _ => simp [writeEvent, eventFields, writeOpcode, writeNat]

/-- A unit stays far below the levels that the reader allows. -/
theorem readable_writeUnit {unit : CompiledUnit} (hExact : unit.WithoutFloating) : Readable 5 (writeUnit unit) := by
  have hEvents (event : Event) (hEvent : event ∈ unit.events) := readable_writeEvent (hExact event hEvent)
  simpa [writeUnit] using hEvents

end

/-! ### Feeds -/

/-- An object as the whole feed is a feed of one unit. -/
theorem parseUnits_spelled_unit {unit : CompiledUnit} (hExact : unit.WithoutFloating) {text : String}
    (hText : Json.Spelled (writeUnit unit) text) : parseUnits text = .ok [unit] := by
  have hParse := Json.parse_spelled hText ((readable_writeUnit hExact).mono (by decide))
  have hOne : readUnits (writeUnit unit) = do return [← readUnit (writeUnit unit)] := rfl
  simp only [parseUnits, hParse, hOne, readUnit_writeUnit hExact]
  rfl

/-- An array as the feed holds its units in order. -/
theorem parseUnits_spelled_units {units : List CompiledUnit} (hExact : ∀ unit ∈ units, unit.WithoutFloating)
    {text : String} (hText : Json.Spelled (.arr (units.map writeUnit)) text) : parseUnits text = .ok units := by
  have hReadable : Json.Readable 6 (.arr (units.map writeUnit)) := by
    simpa using fun unit hUnit => readable_writeUnit (hExact unit hUnit)
  have hParse := Json.parse_spelled hText (hReadable.mono (by decide))
  simp only [parseUnits, hParse]
  exact mapM_map fun unit hUnit => readUnit_writeUnit (hExact unit hUnit)

/-- Units without floating-point constants are read back from every text of what is written for them, each alone as a
feed of one unit and all together as an array. The writer's own text is one of these texts. -/
theorem parseUnits_written (units : List CompiledUnit) (hExact : ∀ unit ∈ units, unit.WithoutFloating) :
    (∀ unit ∈ units, parseUnits (Json.render (writeUnit unit)) = .ok [unit] ∧
      ∀ text, Json.Spelled (writeUnit unit) text → parseUnits text = .ok [unit]) ∧
    parseUnits (Json.render (.arr (units.map writeUnit))) = .ok units ∧
      ∀ text, Json.Spelled (.arr (units.map writeUnit)) text → parseUnits text = .ok units := by
  have hReadable (unit : CompiledUnit) (hUnit : unit ∈ units) := readable_writeUnit (hExact unit hUnit)
  have hRegular : Json.Regular (.arr (units.map writeUnit)) :=
    Json.regularItems_iff.mpr (List.forall_mem_map.mpr fun unit hUnit => (hReadable unit hUnit).1)
  refine ⟨fun unit hUnit => ⟨?_, fun text => parseUnits_spelled_unit (hExact unit hUnit)⟩, ?_,
    fun text => parseUnits_spelled_units hExact⟩
  · exact parseUnits_spelled_unit (hExact unit hUnit) (Json.spelled_render (hReadable unit hUnit).1)
  · exact parseUnits_spelled_units hExact (Json.spelled_render hRegular)

/-- A method that links a call site at run time, among constants and names that need escapes, extreme numbers and
optional parts that are there or not. -/
def lambdaMethod : CompiledUnit where
  owner := "pkg/\"Outer\"$1"
  name := "run\\\t"
  descriptor := "()V"
  isStatic := true
  events := [
    .label 0,
    .ldc (.long Int64.minValue),
    .ldc (.string "tab\tbell\x07 λ"),
    .invokeDynamic "apply" "()Lf;" ⟨"B", "link", "()V"⟩ (some ⟨"A", "lambda$0", "()V"⟩) none,
    .switch 4294967295 [-2147483648, 7] [0, 1],
    .tryCatch 0 1 2 none,
    .tryCatch 0 1 2 (some "E"),
    .frame .same1 0 1,
    .insn .vreturn]

/-- The unit alone and the array of it twice are read back from their own texts. -/
theorem parseUnits_written_lambdaMethod : (∀ unit ∈ [lambdaMethod, lambdaMethod], unit.WithoutFloating) ∧
    parseUnits (Json.render (writeUnit lambdaMethod)) = .ok [lambdaMethod] ∧
    parseUnits (Json.render (.arr [writeUnit lambdaMethod, writeUnit lambdaMethod])) =
      .ok [lambdaMethod, lambdaMethod] := by
  have hExact : ∀ unit ∈ [lambdaMethod, lambdaMethod], unit.WithoutFloating := by
    have hOne : ∀ event ∈ lambdaMethod.events, event.pushesFloating = false := by decide
    simpa [CompiledUnit.WithoutFloating] using hOne
  obtain ⟨hUnit, hUnits, -⟩ := parseUnits_written [lambdaMethod, lambdaMethod] hExact
  exact ⟨hExact, (hUnit lambdaMethod List.mem_cons_self).1, hUnits⟩

end Feed

end Decompiler
