import Decompiler.Local.Table
import Mathlib.Data.List.Basic

/-!
Looking up parameters in the table of locals. Parameters that take one slot each have their place among the
parameters for their slot, so that a load of the right kind finds them there.
-/

namespace Decompiler

namespace LocalVariables

variable {table : LocalVariables} {slot : UInt16} {kind : SlotKind} {op : Opcode} {id : VariableId}

/-- A variable that exists is not made again. -/
theorem variableAt_of_find? (hFind : table.find? slot kind = some id) (supply : Supply) :
    (table.variableAt slot kind).run supply = ((id, table), supply) := by
  rw [variableAt, hFind]
  rfl

theorem variableAt_of_find?_eq_none (hFind : table.find? slot kind = none) (supply : Supply) :
    ∃ name, (table.variableAt slot kind).run supply =
      ((table.list.length, table.add { slot, kind, name, type := .cell supply.types.cells.size }),
        { supply with types := (supply.types.add kind.defaultType false).2 }) := by
  simp only [variableAt, hFind]
  exact ⟨_, rfl⟩

/-- The operand of a variable. -/
def operand (table : LocalVariables) (id : VariableId) (number : OperandId) : Operand :=
  { id := number, type := (table.get id).type, kind := .localVariable id false }

/-- A load gives an operand of the variable that it finds or makes. -/
theorem load_eq {table' : LocalVariables} {supply supply' : Supply} (hThis : table.isThis slot = false)
    (hVariable : (table.variableAt slot ((SlotKind.ofOpcode? op).getD .reference)).run supply =
      ((id, table'), supply')) :
    (table.load slot op).run supply =
      ((table'.operand id supply'.nextId, table'), { supply' with nextId := supply'.nextId + 1 }) := by
  simp only [load, hThis, Bool.false_eq_true, ↓reduceIte, StateT.run_bind, hVariable]
  rfl

/-- The supply after a variable learned the type of a value. A certain type stays, and one that tells nothing is not
learned. -/
def learned (supply : Supply) (ref value : TypeRef) : Supply :=
  if supply.types.isFixed ref || supply.types.typeOf value = .unknown || supply.types.typeOf value = .null then supply
  else { supply with types := supply.types.suggest ref (supply.types.typeOf value) }

/-- A store goes to the variable that it finds or makes. -/
theorem store_eq {table' : LocalVariables} {supply supply' : Supply} {value : Operand}
    (hVariable : (table.variableAt slot ((SlotKind.ofOpcode? op).getD .reference)).run supply =
      ((id, table'), supply')) :
    (table.store slot op value).run supply =
      ((table'.operand id (learned supply' (table'.get id).type value.type).nextId, table'),
        { learned supply' (table'.get id).type value.type with
          nextId := (learned supply' (table'.get id).type value.type).nextId + 1 }) := by
  simp only [store, StateT.run_bind, hVariable]
  rfl

theorem parameter_of_mem_parameterEntries {types : List JvmType} {entry : LocalVariable} {start : UInt16} {index : Nat}
    (hEntry : entry ∈ parameterEntries start index types) : entry.parameter = true := by
  induction types generalizing start index with
  | nil => cases hEntry
  | cons type types ih =>
      rcases List.mem_cons.mp hEntry with rfl | hEntry
      · rfl
      · exact ih hEntry

theorem length_parameterEntries (start : UInt16) (index : Nat) (types : List JvmType) :
    (parameterEntries start index types).length = types.length := by
  induction types generalizing start index with
  | nil => rfl
  | cons type types ih => rw [parameterEntries, List.length_cons, ih, List.length_cons]

/-- The number of slots that parameters take. -/
def slotCount : List JvmType → Nat
  | [] => 0
  | type :: types => (if type.isWide then 2 else 1) + slotCount types

/-- Parameters that take one slot each take as many slots as there are of them. -/
theorem slotCount_narrow {types : List JvmType} (hNarrow : ∀ type ∈ types, type.isWide = false) :
    slotCount types = types.length := by
  induction types with
  | nil => rfl
  | cons type types ih =>
      obtain ⟨hType, hTypes⟩ := List.forall_mem_cons.mp hNarrow
      rw [slotCount, hType, ih hTypes, List.length_cons, Nat.add_comm]
      rfl

/-- A parameter lies behind the slots of the parameters before it. -/
theorem getElem?_parameterEntries {types : List JvmType} (start : UInt16) (index place : Nat) :
    (parameterEntries start index types)[place]? = types[place]?.map fun type =>
      { slot := start + .ofNat (slotCount (types.take place)), kind := .ofType type
        name := "arg" ++ toString (index + place), type := .known type, parameter := true } := by
  induction types generalizing start index place with
  | nil => rfl
  | cons type types ih =>
      cases place with
      | zero => simp [parameterEntries, slotCount]
      | succ place =>
          have hWidth : (if type.isWide then (2 : UInt16) else 1) = .ofNat (if type.isWide then 2 else 1) := by
            split <;> rfl
          have hStep : start + (if type.isWide then 2 else 1) + UInt16.ofNat (slotCount (types.take place)) =
              start + UInt16.ofNat (slotCount ((type :: types).take (place + 1))) := by
            rw [hWidth, UInt16.add_assoc, ← UInt16.ofNat_add]
            rfl
          simp only [parameterEntries, List.getElem?_cons_succ, ih, hStep, Nat.add_assoc, Nat.add_comm 1 place]

/-- Parameters that take one slot each lie in consecutive slots. -/
theorem getElem?_narrow {types : List JvmType} (hNarrow : ∀ type ∈ types, type.isWide = false)
    (start : UInt16) (index place : Nat) :
    (parameterEntries start index types)[place]? = types[place]?.map fun type =>
      { slot := start + .ofNat place, kind := .ofType type, name := "arg" ++ toString (index + place)
        type := .known type, parameter := true } := by
  rw [getElem?_parameterEntries]
  cases hType : types[place]? with
  | none => rfl
  | some type =>
      have hPlace : place < types.length := (List.getElem?_eq_some_iff.mp hType).1
      rw [slotCount_narrow fun type hType => hNarrow type (List.mem_of_mem_take hType), List.length_take,
        Nat.min_eq_left (Nat.le_of_lt hPlace)]

variable {owner : String} {descriptor : MethodDescriptor}

/-- The parameter of a slot is found by its kind. -/
theorem find?_parameter (hNarrow : ∀ type ∈ descriptor.parameters, type.isWide = false) {slot : UInt16}
    {type : JvmType} (hSlot : descriptor.parameters[slot.toNat]? = some type) :
    (ofDescriptor owner true descriptor).find? slot (.ofType type) = some slot.toNat := by
  have hEntry (place : Nat) : (ofDescriptor owner true descriptor).list[place]? = _ :=
    getElem?_narrow hNarrow 0 0 place
  have hPlace : (ofDescriptor owner true descriptor).list[slot.toNat]? = _ :=
    (hEntry slot.toNat).trans (congrArg _ hSlot)
  obtain ⟨hLength, hFound⟩ := List.getElem?_eq_some_iff.mp hPlace
  refine List.findIdx?_eq_some_iff_getElem.mpr ⟨hLength, ?_, fun place hBefore => ?_⟩
  · simp [hFound]
  · -- The entries before lie in the slots before.
    have hOther := hEntry place
    rw [List.getElem?_eq_getElem (Nat.lt_trans hBefore hLength)] at hOther
    obtain ⟨other, -, hOther⟩ := Option.map_eq_some_iff.mp hOther.symm
    have hSlots : (0 + UInt16.ofNat place).toNat ≠ slot.toNat := by
      have := slot.toNat_lt
      rw [UInt16.zero_add, UInt16.toNat_ofNat']
      omega
    simp only [← hOther, Bool.and_eq_true, beq_iff_eq, not_and]
    exact fun hSame => absurd (congrArg UInt16.toNat hSame) hSlots

end LocalVariables

end Decompiler
