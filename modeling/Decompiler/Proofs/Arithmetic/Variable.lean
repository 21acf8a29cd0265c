import Decompiler.Local.Table
import Decompiler.Proofs.Arithmetic.Effect
import Decompiler.Proofs.Local.Table
import Decompiler.Proofs.Operand.Coercion

/-!
The locals and types of code that works on ints. Nothing but `int` is ever proposed to a type cell, so that no value
is taken for a boolean or a character; every slot holds one variable, which an access finds or makes.
-/

namespace Decompiler.Arithmetic

/-- The type is `int`, or a guess. -/
def IsInt : TypeRef → Prop
  | .known type => type = .int
  | .cell _ => True

/-- Every guess made so far is `int`. -/
def IntCells (types : TypeCells) : Prop := ∀ cell ∈ types.cells, cell.type = .int

namespace IntCells

variable {types : TypeCells} {ref : TypeRef} {type : JvmType}

theorem add (ints : IntCells types) : IntCells (types.add .int false).2 := by
  intro cell hCell
  rcases Array.mem_push.mp hCell with hCell | rfl
  · exact ints cell hCell
  · rfl

theorem typeOf (ints : IntCells types) (hRef : IsInt ref) : types.typeOf ref = .int ∨ types.typeOf ref = .unknown := by
  cases ref with
  | known type => exact .inl hRef
  | cell id =>
      rw [TypeCells.typeOf, TypeCells.cell?]
      cases hCell : types.cells[id]? with
      | none => exact .inr rfl
      | some cell => exact .inl (ints cell (Array.mem_of_getElem? hCell))

theorem update (ints : IntCells types) (id : CellId) {change : TypeCell → TypeCell}
    (hChange : ∀ cell, cell.type = .int → (change cell).type = .int) : IntCells (types.update id change) := by
  intro cell hCell
  obtain ⟨place, hPlace, rfl⟩ := Array.getElem_of_mem hCell
  simp only [TypeCells.update, Array.size_modify] at hPlace
  have hBefore : types.cells[place].type = .int := ints _ (Array.getElem_mem hPlace)
  simp only [TypeCells.update, Array.getElem_modify]
  split
  · exact hChange _ hBefore
  · exact hBefore

/-- Telling cells that they are `int` leaves no other guess, whatever the order. -/
theorem spread (ints : IntCells types) (fix : Bool) (fuel : Nat) (pending seen : List CellId) :
    IntCells (TypeCells.spread .int fix fuel pending seen types) := by
  induction fuel generalizing pending seen types with
  | zero => exact ints
  | succ fuel ih =>
      cases pending with
      | nil => exact ints
      | cons id pending =>
          rw [TypeCells.spread]
          split
          · next cell hCell =>
              split
              · exact ih ints _ _
              · split
                · exact ih ints _ _
                · exact ih (ints.update id fun _ _ => rfl) _ _
          · exact ih ints _ _

theorem suggest (ints : IntCells types) (ref : TypeRef) (hType : type = .int ∨ type = .unknown) :
    IntCells (types.suggest ref type) := by
  rcases hType with rfl | rfl
  · cases ref with
    | known => exact ints
    | cell id => exact ints.spread false _ _ _
  · cases ref with
    | known => exact ints
    | cell => exact ints

end IntCells

/-- Storing a value into a place of the type proposes nothing else. -/
theorem IntCells.suggestStored {supply : Supply} (ints : IntCells supply.types) (value : Operand) {type : JvmType}
    (hType : type = .int ∨ type = .unknown) :
    ∃ types, (value.suggestStored type).run supply = (value, { supply with types }) ∧ IntCells types := by
  refine ⟨_, ?_, ints.suggest value.type hType⟩
  rcases hType with rfl | rfl <;> rfl

/-- Among ints there is no cast, so a coercion does no more than propose a type. -/
theorem IntCells.coerce {supply : Supply} (ints : IntCells supply.types) (value : Operand) {type : JvmType}
    (hType : type = .int ∨ type = .unknown) :
    ∃ types, (value.coerce type).run supply = (value, { supply with types }) ∧ IntCells types := by
  have hStored : value.StoredAs type := by
    rcases hType with rfl | rfl <;> exact .inl ⟨nofun, nofun⟩
  rw [hStored.coerce]
  exact ints.suggestStored value hType

/-! ### Locals -/

/-- The variables live where `slots` says. -/
def Agrees (slots : VariableId → UInt16) (table : LocalVariables) : Prop :=
  ∀ id < table.list.length, slots id = (table.get id).slot

/-- The table of a static unit whose locals are ints. Only parameters may share a slot. -/
structure IntTable (table : LocalVariables) : Prop where
  isStatic : table.isStatic = true
  ints : ∀ entry ∈ table.list, entry.kind = .int ∧ IsInt entry.type
  own : ∀ id < table.list.length, (table.get id).parameter = false → ∀ other < table.list.length,
    (table.get other).slot = (table.get id).slot → other = id

theorem get_eq_getElem {table : LocalVariables} {id : VariableId} (hId : id < table.list.length) :
    table.get id = table.list[id] := by
  rw [LocalVariables.get, List.getD_eq_getElem?_getD, List.getElem?_eq_getElem hId, Option.getD_some]

/-- The entries of a table keep their places when one is added. -/
theorem get_add_of_lt {table : LocalVariables} {entry : LocalVariable} {id : VariableId}
    (hId : id < table.list.length) : (table.add entry).get id = table.get id := by
  rw [LocalVariables.get, LocalVariables.get, LocalVariables.add, List.getD_eq_getElem?_getD,
    List.getElem?_append_left hId, List.getD_eq_getElem?_getD]

theorem get_add_length (table : LocalVariables) (entry : LocalVariable) :
    (table.add entry).get table.list.length = entry := by
  simp [LocalVariables.get, LocalVariables.add]

/-- The variable is the one that an access of the slot finds. -/
structure Found (table : LocalVariables) (slot : UInt16) (id : VariableId) : Prop where
  find : table.find? slot .int = some id
  lt : id < table.list.length
  slot : (table.get id).slot = slot

/-- What is found for a slot is a variable of that slot. -/
theorem Found.of_find? {table : LocalVariables} {slot : UInt16} {id : VariableId}
    (hFind : table.find? slot .int = some id) : Found table slot id := by
  obtain ⟨hId, hEntry, -⟩ := List.findIdx?_eq_some_iff_getElem.mp hFind
  simp only [Bool.and_eq_true, beq_iff_eq] at hEntry
  exact ⟨hFind, hId, by rw [get_eq_getElem hId, hEntry.1]⟩

namespace IntTable

variable {table : LocalVariables} {slot : UInt16} {id : VariableId}

theorem isThis (ints : IntTable table) (slot : UInt16) : table.isThis slot = false := by
  rw [LocalVariables.isThis, ints.isStatic]
  rfl

theorem type_of_lt (ints : IntTable table) (hId : id < table.list.length) : IsInt (table.get id).type := by
  rw [get_eq_getElem hId]
  exact (ints.ints _ (List.getElem_mem hId)).2

/-- The table of a static unit whose parameters are ints. -/
theorem ofDescriptor (owner : String) (count : Nat) :
    IntTable (.ofDescriptor owner true { parameters := List.replicate count .int, result := .int }) := by
  have hEntries (slot : UInt16) (index : Nat) :
      ∀ entry ∈ LocalVariables.parameterEntries slot index (List.replicate count .int),
        (entry.kind = .int ∧ IsInt entry.type) ∧ entry.parameter = true := by
    induction count generalizing slot index with
    | zero => exact fun _ hEntry => absurd hEntry List.not_mem_nil
    | succ count ih =>
        rw [List.replicate_succ, LocalVariables.parameterEntries]
        exact List.forall_mem_cons.mpr ⟨⟨⟨rfl, rfl⟩, rfl⟩, ih _ _⟩
  refine ⟨rfl, fun entry hEntry => (hEntries 0 0 entry hEntry).1, fun id hId hParameter => ?_⟩
  rw [get_eq_getElem hId, (hEntries 0 0 _ (List.getElem_mem hId)).2] at hParameter
  cases hParameter

/-- A new variable for a slot that no access has found. -/
theorem add (ints : IntTable table) (hFind : table.find? slot .int = none) (name : String) {type : TypeRef}
    (hType : IsInt type) :
    IntTable (table.add { slot, kind := .int, name, type }) ∧
      Found (table.add { slot, kind := .int, name, type }) slot table.list.length := by
  have hOthers : ∀ id < table.list.length, (table.get id).slot ≠ slot := by
    intro id hId hSlot
    rw [get_eq_getElem hId] at hSlot
    have hEntry := List.findIdx?_eq_none_iff.mp hFind _ (List.getElem_mem hId)
    simp [hSlot, (ints.ints _ (List.getElem_mem hId)).1] at hEntry
  refine ⟨⟨ints.isStatic, ?_, ?_⟩, .of_find? ?_⟩
  · intro entry hEntry
    rcases List.mem_append.mp hEntry with hEntry | hEntry
    · exact ints.ints entry hEntry
    · rw [List.mem_singleton.mp hEntry]
      exact ⟨rfl, hType⟩
  · intro id hId hParameter other hOther hSame
    simp only [LocalVariables.add, List.length_append, List.length_singleton] at hId hOther
    rcases Nat.lt_succ_iff_lt_or_eq.mp hId with hId | rfl <;>
      rcases Nat.lt_succ_iff_lt_or_eq.mp hOther with hOther | rfl
    · rw [get_add_of_lt hId] at hParameter hSame
      rw [get_add_of_lt hOther] at hSame
      exact ints.own id hId hParameter other hOther hSame
    · rw [get_add_of_lt hId, get_add_length] at hSame
      exact absurd hSame.symm (hOthers id hId)
    · rw [get_add_of_lt hOther, get_add_length] at hSame
      exact absurd hSame (hOthers other hOther)
    · rfl
  · have hBefore : table.list.findIdx? (fun entry => entry.slot == slot && entry.kind == .int) = none := hFind
    simp [LocalVariables.find?, LocalVariables.add, List.findIdx?_append, hBefore]

/-- An access of a slot finds its variable or makes it. -/
theorem variableAt (ints : IntTable table) {supply : Supply} (hCells : IntCells supply.types) (slot : UInt16) :
    ∃ id table' types, (table.variableAt slot .int).run supply = ((id, table'), { supply with types }) ∧
      Found table' slot id ∧ IntTable table' ∧ IntCells types ∧ ∀ slots, Agrees slots table' → Agrees slots table := by
  cases hFind : table.find? slot .int with
  | some id =>
      exact ⟨id, table, supply.types, LocalVariables.variableAt_of_find? hFind supply, .of_find? hFind, ints, hCells,
        fun _ hAgrees => hAgrees⟩
  | none =>
      obtain ⟨name, hRun⟩ := LocalVariables.variableAt_of_find?_eq_none hFind supply
      have hType : IsInt (.cell supply.types.cells.size) := trivial
      obtain ⟨hTable, hFound⟩ := ints.add hFind name hType
      refine ⟨_, _, _, hRun, hFound, hTable, hCells.add, fun slots hAgrees id hId => ?_⟩
      have hOld := hAgrees id (by simp [LocalVariables.add]; omega)
      rwa [get_add_of_lt hId] at hOld

/-- The target of a store. -/
theorem store (ints : IntTable table) {supply : Supply} (hCells : IntCells supply.types) (slot : UInt16)
    {value : Operand} (hValue : IsInt value.type) :
    ∃ id table' types, (table.store slot .istore value).run supply =
        ((table'.operand id supply.nextId, table'), { nextId := supply.nextId + 1, types }) ∧
      Found table' slot id ∧ IntTable table' ∧ IntCells types ∧ ∀ slots, Agrees slots table' → Agrees slots table := by
  obtain ⟨id, table', types, hRun, hFound, hTable, hTypes, hAgrees⟩ := ints.variableAt hCells slot
  have hVariable : (table.variableAt slot ((SlotKind.ofOpcode? .istore).getD .reference)).run supply =
      ((id, table'), { supply with types }) := hRun
  by_cases hKeep : (types.isFixed (table'.get id).type || types.typeOf value.type = .unknown ||
      types.typeOf value.type = .null) = true
  · refine ⟨id, table', types, ?_, hFound, hTable, hTypes, hAgrees⟩
    rw [LocalVariables.store_eq hVariable, LocalVariables.learned, if_pos hKeep]
  · refine ⟨id, table', types.suggest (table'.get id).type (types.typeOf value.type), ?_, hFound, hTable,
      hTypes.suggest _ (hTypes.typeOf hValue), hAgrees⟩
    rw [LocalVariables.store_eq hVariable, LocalVariables.learned, if_neg hKeep]

end IntTable

end Decompiler.Arithmetic
