import Decompiler.Proofs.Local.Table
import Mathlib.Data.List.Nodup

/-!
What a sequence of loads, stores, look-ups and debug entries makes of the table of locals. A slot keeps one variable a
kind whatever comes between, so a load reads the variable that a store of the same kind writes. Slot zero of an instance
method is `this`: every load from it reads the receiver, also after a store.
-/

namespace Decompiler

/-- The kind of value that an instruction passes to or from a slot; a reference if it is no load and no store. -/
def SlotKind.accessed (op : Opcode) : SlotKind := (ofOpcode? op).getD .reference

/-- The slot and kind of a variable. -/
def LocalVariable.place (entry : LocalVariable) : UInt16 × SlotKind := (entry.slot, entry.kind)

/-- What no call changes of a variable. -/
def LocalVariable.header (entry : LocalVariable) : (UInt16 × SlotKind) × Bool := (entry.place, entry.parameter)

namespace LocalVariables

/-- A call on the table of locals. -/
inductive Call where
  | load (slot : UInt16) (op : Opcode)
  | store (slot : UInt16) (op : Opcode) (value : Operand)
  | lookUp (slot : UInt16) (kind : SlotKind)
  | rename (slot : UInt16) (name descriptor : String)

/-- The slot and kind that a call is about. -/
def Call.place : Call → UInt16 × SlotKind
  | .load slot op | .store slot op _ => (slot, .accessed op)
  | .lookUp slot kind => (slot, kind)
  | .rename slot _ descriptor => (slot, .ofType ((JvmType.ofDescriptor? descriptor).getD .unknown))

/-- One call: what the operand that it answers with is, and the table after it. -/
def Call.run (call : Call) (table : LocalVariables) : SupplyM (Option OperandKind × LocalVariables) :=
  match call with
  | .load slot op => do
    let (operand, table) ← table.load slot op
    return (some operand.kind, table)
  | .store slot op value => do
    let (operand, table) ← table.store slot op value
    return (some operand.kind, table)
  | .lookUp slot kind => do
    let (id, table) ← table.variableAt slot kind
    return (some (.localVariable id false), table)
  | .rename slot name descriptor => do
    return (none, ← table.rename slot name descriptor)

/-- The calls of a list one after another: their answers and the table after them. -/
def runCalls : List Call → LocalVariables → SupplyM (List (Option OperandKind) × LocalVariables)
  | [], table => return ([], table)
  | call :: calls, table => do
    let (answer, table) ← call.run table
    let (answers, table) ← runCalls calls table
    return (answer :: answers, table)

variable {table table' table'' : LocalVariables} {slot : UInt16} {kind : SlotKind} {id : VariableId}
  {place : UInt16 × SlotKind} {call : Call} {answer : Option OperandKind}

/-! ### Slots and kinds -/

/-- The slots and kinds of the variables. -/
def places (table : LocalVariables) : List (UInt16 × SlotKind) := table.list.map LocalVariable.place

/-- A slot has one variable a kind. -/
def Distinct (table : LocalVariables) : Prop := table.places.Nodup

theorem getElem?_of_find? (hFind : table.find? slot kind = some id) : table.places[id]? = some (slot, kind) := by
  obtain ⟨hId, hEntry, -⟩ := List.findIdx?_eq_some_iff_getElem.mp hFind
  obtain ⟨hSlot, hKind⟩ : table.list[id].slot = slot ∧ table.list[id].kind = kind := by simpa using hEntry
  rw [places, List.getElem?_map, List.getElem?_eq_getElem hId, Option.map_some, LocalVariable.place, hSlot, hKind]

theorem not_mem_places (hFind : table.find? slot kind = none) : (slot, kind) ∉ table.places := by
  intro hMem
  obtain ⟨entry, hEntry, hSame⟩ := List.mem_map.mp hMem
  obtain ⟨hSlot, hKind⟩ := Prod.mk.inj hSame
  simpa [hSlot, hKind] using List.findIdx?_eq_none_iff.mp hFind entry hEntry

theorem find?_of_getElem? (distinct : Distinct table) (hPlace : table.places[id]? = some (slot, kind)) :
    table.find? slot kind = some id := by
  cases hFind : table.find? slot kind with
  | none => exact absurd (List.mem_of_getElem? hPlace) (not_mem_places hFind)
  | some other =>
      have hOther := getElem?_of_find? hFind
      have hInside : other < table.places.length := (List.getElem?_eq_some_iff.mp hOther).1
      rw [(List.getElem?_inj hInside distinct).mp (hOther.trans hPlace.symm)]

/-! ### What calls do to the table -/

/-- The later table has the variables of the earlier one, and behind them others, which are no parameters. -/
structure Grows (table table' : LocalVariables) : Prop where
  isStatic : table'.isStatic = table.isStatic
  headers : ∃ added : List (UInt16 × SlotKind),
    table'.list.map LocalVariable.header = table.list.map LocalVariable.header ++ added.map (·, false)
  distinct : Distinct table → Distinct table'

theorem places_eq (table : LocalVariables) : table.places = (table.list.map LocalVariable.header).map Prod.fst := by
  rw [List.map_map]
  rfl

namespace Grows

theorem refl (table : LocalVariables) : Grows table table := ⟨rfl, ⟨[], by simp⟩, id⟩

theorem trans (first : Grows table table') (second : Grows table' table'') : Grows table table'' := by
  obtain ⟨added, hAdded⟩ := first.headers
  obtain ⟨more, hMore⟩ := second.headers
  refine ⟨second.isStatic.trans first.isStatic, ⟨added ++ more, ?_⟩, second.distinct ∘ first.distinct⟩
  rw [hMore, hAdded, List.append_assoc, List.map_append]

/-- A variable keeps its place. -/
theorem getElem? (grows : Grows table table') (hPlace : table.places[id]? = some place) :
    table'.places[id]? = some place := by
  obtain ⟨added, hAdded⟩ := grows.headers
  have hInside : id < table.places.length := (List.getElem?_eq_some_iff.mp hPlace).1
  rw [places_eq, hAdded, List.map_append, ← places_eq, List.getElem?_append_left hInside, hPlace]

theorem isThis (grows : Grows table table') (slot : UInt16) : table'.isThis slot = table.isThis slot := by
  rw [LocalVariables.isThis, grows.isStatic, LocalVariables.isThis]

theorem add {name : String} {type : TypeRef} (hFind : table.find? slot kind = none) :
    Grows table (table.add { slot, kind, name, type }) where
  isStatic := rfl
  headers := ⟨[(slot, kind)], List.map_append⟩
  distinct distinct := by
    have hPlaces : (table.add { slot, kind, name, type }).places = table.places ++ [(slot, kind)] := List.map_append
    rw [Distinct, hPlaces]
    exact List.nodup_append.mpr ⟨distinct, List.nodup_singleton _,
      fun _ hMem _ hOther hSame => not_mem_places hFind (List.mem_singleton.mp hOther ▸ hSame ▸ hMem)⟩

/-- A name given to a variable leaves its place. -/
theorem name (table : LocalVariables) (id : VariableId) (name : String) :
    Grows table { table with list := table.list.set id { table.get id with name, named := true } } := by
  have hHeaders : (table.list.set id { table.get id with name, named := true }).map LocalVariable.header =
      table.list.map LocalVariable.header := by
    rw [List.map_set]
    refine List.ext_getElem? fun other => ?_
    rw [List.getElem?_set]
    split
    case isFalse => rfl
    case isTrue hSame =>
      subst hSame
      split
      case isFalse hOutside => exact (List.getElem?_eq_none (Nat.le_of_not_lt hOutside)).symm
      case isTrue hInside =>
        have hId : id < table.list.length := by simpa using hInside
        simp [LocalVariables.get, hId, LocalVariable.header, LocalVariable.place]
  refine ⟨rfl, ⟨[], by simpa using hHeaders⟩, fun distinct => ?_⟩
  rw [Distinct, places_eq] at distinct ⊢
  exact hHeaders ▸ distinct

end Grows

theorem exists_variableAt (table : LocalVariables) (slot : UInt16) (kind : SlotKind) (supply : Supply) :
    ∃ id table' supply', (table.variableAt slot kind).run supply = ((id, table'), supply') ∧ Grows table table' ∧
      table'.places[id]? = some (slot, kind) := by
  cases hFind : table.find? slot kind with
  | some id => exact ⟨id, table, supply, variableAt_of_find? hFind supply, .refl table, getElem?_of_find? hFind⟩
  | none =>
      obtain ⟨name, hRun⟩ := variableAt_of_find?_eq_none hFind supply
      refine ⟨_, _, _, hRun, .add hFind, ?_⟩
      simp [places, LocalVariables.add, LocalVariable.place]

/-! ### What calls answer -/

/-- What a call may answer with: a variable of its slot and kind, or for a load from the slot of `this` the receiver. A
debug entry has no answer. -/
def Call.Answers (table : LocalVariables) : Call → Option OperandKind → Prop
  | .load slot op, answer =>
    if table.isThis slot then answer = some .this
    else ∃ id, answer = some (.localVariable id false) ∧ table.places[id]? = some (slot, .accessed op)
  | .store slot op _, answer =>
    ∃ id, answer = some (.localVariable id false) ∧ table.places[id]? = some (slot, .accessed op)
  | .lookUp slot kind, answer => ∃ id, answer = some (.localVariable id false) ∧ table.places[id]? = some (slot, kind)
  | .rename .., answer => answer = none

theorem Call.Answers.grows (answers : call.Answers table answer) (grows : Grows table table') :
    call.Answers table' answer := by
  cases call with
  | load slot op =>
      rw [Call.Answers, grows.isThis]
      rw [Call.Answers] at answers
      by_cases hThis : table.isThis slot
      · rwa [if_pos hThis] at answers ⊢
      · rw [if_neg hThis] at answers ⊢
        obtain ⟨id, hAnswer, hPlace⟩ := answers
        exact ⟨id, hAnswer, grows.getElem? hPlace⟩
  | store slot op value | lookUp slot kind =>
      obtain ⟨id, hAnswer, hPlace⟩ := answers
      exact ⟨id, hAnswer, grows.getElem? hPlace⟩
  | rename slot name descriptor => exact answers

theorem run_andThen {σ α β : Type} {action : StateM σ α} {next : α → StateM σ β} {state state' : σ} {value : α}
    (hRun : action.run state = (value, state')) : (action >>= next).run state = (next value).run state' := by
  rw [StateT.run_bind, hRun]
  rfl

theorem exists_rename (table : LocalVariables) (slot : UInt16) (name descriptor : String) (supply : Supply) :
    ∃ table' supply', (table.rename slot name descriptor).run supply = (table', supply') ∧ Grows table table' := by
  by_cases hThis : table.isThis slot
  · exact ⟨table, supply, by rw [rename, if_pos hThis]; rfl, .refl table⟩
  · obtain ⟨id, grown, supply', hVariable, grows, -⟩ := exists_variableAt table slot
      (.ofType ((JvmType.ofDescriptor? descriptor).getD .unknown)) supply
    rw [rename, if_neg hThis, run_andThen hVariable]
    dsimp only
    by_cases hNamed : (grown.get id).named
    · exact ⟨grown, supply', by rw [if_pos hNamed]; rfl, grows⟩
    · rw [if_neg hNamed]
      split
      case isTrue => exact ⟨_, supply', rfl, grows.trans (.name grown id name)⟩
      case isFalse => exact ⟨_, _, rfl, grows.trans (.name grown id name)⟩

/-- One call answers about its slot and kind, and the table grows. -/
theorem Call.exists_run (call : Call) (table : LocalVariables) (supply : Supply) :
    ∃ answer table' supply', (call.run table).run supply = ((answer, table'), supply') ∧ Grows table table' ∧
      call.Answers table' answer := by
  cases call with
  | load slot op =>
      by_cases hThis : table.isThis slot
      · refine ⟨some .this, table, { supply with nextId := supply.nextId + 1 }, ?_, .refl table, ?_⟩
        · simp only [Call.run, LocalVariables.load, hThis, if_true]
          rfl
        · simp [Call.Answers, hThis]
      · have hOther : table.isThis slot = false := by simpa using hThis
        obtain ⟨id, grown, supply', hVariable, grows, hPlace⟩ := exists_variableAt table slot (.accessed op) supply
        have hAnswer : Call.Answers grown (.load slot op) (some (.localVariable id false)) := by
          rw [Call.Answers, grows.isThis, if_neg hThis]
          exact ⟨id, rfl, hPlace⟩
        exact ⟨_, grown, _, (run_andThen (load_eq hOther hVariable)).trans rfl, grows, hAnswer⟩
  | store slot op value =>
      obtain ⟨id, grown, supply', hVariable, grows, hPlace⟩ := exists_variableAt table slot (.accessed op) supply
      exact ⟨some (.localVariable id false), grown, _, (run_andThen (store_eq hVariable)).trans rfl, grows, id, rfl,
        hPlace⟩
  | lookUp slot kind =>
      obtain ⟨id, grown, supply', hVariable, grows, hPlace⟩ := exists_variableAt table slot kind supply
      exact ⟨_, grown, supply', (run_andThen hVariable).trans rfl, grows, id, rfl, hPlace⟩
  | rename slot name descriptor =>
      obtain ⟨grown, supply', hRun, grows⟩ := exists_rename table slot name descriptor supply
      exact ⟨none, grown, supply', (run_andThen hRun).trans rfl, grows, rfl⟩

/-- Every call of a list answers about its slot and kind, as the table after all of them has it. -/
theorem exists_runCalls (calls : List Call) (table : LocalVariables) (supply : Supply) :
    ∃ answers table' supply', (runCalls calls table).run supply = ((answers, table'), supply') ∧ Grows table table' ∧
      List.Forall₂ (Call.Answers table') calls answers := by
  induction calls generalizing table supply with
  | nil => exact ⟨[], table, supply, rfl, .refl table, .nil⟩
  | cons call calls ih =>
      obtain ⟨answer, middle, supply₁, hCall, first, hAnswer⟩ := call.exists_run table supply
      obtain ⟨answers, table', supply₂, hCalls, rest, hAnswers⟩ := ih middle supply₁
      refine ⟨answer :: answers, table', supply₂, ?_, first.trans rest, .cons (hAnswer.grows rest) hAnswers⟩
      rw [runCalls, run_andThen hCall, run_andThen hCalls]
      rfl

theorem exists_answer {calls : List Call} {answers : List (Option OperandKind)}
    (hAnswers : List.Forall₂ (Call.Answers table) calls answers) {index : Nat} (hCall : calls[index]? = some call) :
    ∃ answer, answers[index]? = some answer ∧ call.Answers table answer := by
  induction hAnswers generalizing index with
  | nil => simp at hCall
  | cons hAnswer _ ih =>
      cases index with
      | zero => exact ⟨_, rfl, Option.some.inj hCall ▸ hAnswer⟩
      | succ index => exact ih hCall

/-- A variable that a call answers with has the slot and kind of the call. -/
theorem Call.Answers.places (answers : call.Answers table (some (.localVariable id false))) :
    table.places[id]? = some call.place := by
  cases call with
  | load slot op =>
      rw [Call.Answers] at answers
      split at answers
      case isTrue => cases answers
      case isFalse =>
        obtain ⟨_, hSame, hPlace⟩ := answers
        cases hSame
        exact hPlace
  | store slot op value | lookUp slot kind =>
      obtain ⟨_, hSame, hPlace⟩ := answers
      cases hSame
      exact hPlace
  | rename slot name descriptor => cases answers

/-! ### Parameters -/

variable {owner : String} {isStatic : Bool} {descriptor : MethodDescriptor} {types : List JvmType} {i j : Nat}

/-- More parameters take more slots. -/
theorem slotCount_take_lt (hBefore : i < j) (hInside : j ≤ types.length) :
    slotCount (types.take i) < slotCount (types.take j) := by
  induction types generalizing i j with
  | nil => exact absurd (Nat.lt_of_lt_of_le hBefore hInside) (Nat.not_lt_zero i)
  | cons type types ih =>
      obtain ⟨j, rfl⟩ := Nat.exists_eq_succ_of_ne_zero (Nat.ne_zero_of_lt hBefore)
      have hWidth : 0 < if type.isWide then 2 else 1 := by split <;> decide
      cases i with
      | zero =>
          rw [List.take_succ_cons, slotCount, List.take_zero]
          exact Nat.add_pos_left hWidth _
      | succ i =>
          rw [List.take_succ_cons, List.take_succ_cons, slotCount, slotCount]
          exact Nat.add_lt_add_left (ih (Nat.lt_of_succ_lt_succ hBefore) (Nat.le_of_succ_le_succ hInside)) _

theorem slotCount_take_lt_of_le (hSlots : slotCount types ≤ 65535) (hInside : i < types.length) :
    slotCount (types.take i) < 65535 := by
  have hMore := slotCount_take_lt hInside (Nat.le_refl types.length)
  rw [List.take_length] at hMore
  exact Nat.lt_of_lt_of_le hMore hSlots

/-- The slots of parameters that fit do not wrap around. -/
theorem toNat_slot (isStatic : Bool) {count : Nat} (hCount : count < 65535) :
    ((if isStatic then 0 else 1) + UInt16.ofNat count).toNat = (if isStatic then 0 else 1) + count := by
  cases isStatic <;> simp <;> omega

theorem getElem?_places_ofDescriptor (i : Nat) :
    (ofDescriptor owner isStatic descriptor).places[i]? = descriptor.parameters[i]?.map fun type =>
      ((if isStatic then 0 else 1) + .ofNat (slotCount (descriptor.parameters.take i)), .ofType type) := by
  rw [places, List.getElem?_map, ofDescriptor, getElem?_parameterEntries, Option.map_map]
  rfl

theorem distinct_ofDescriptor (hSlots : slotCount descriptor.parameters ≤ 65535) :
    Distinct (ofDescriptor owner isStatic descriptor) := by
  refine List.nodup_iff_getElem?_ne_getElem?.mpr fun i j hBefore hInside hSame => ?_
  have hJ : j < descriptor.parameters.length := by
    by_contra hOutside
    have hNone : (ofDescriptor owner isStatic descriptor).places[j]? = _ := getElem?_places_ofDescriptor j
    rw [List.getElem?_eq_none (Nat.le_of_not_lt hOutside), List.getElem?_eq_getElem hInside] at hNone
    cases hNone
  have hI : i < descriptor.parameters.length := Nat.lt_trans hBefore hJ
  rw [getElem?_places_ofDescriptor, getElem?_places_ofDescriptor, List.getElem?_eq_getElem hI,
    List.getElem?_eq_getElem hJ] at hSame
  have hSlot := congrArg UInt16.toNat (Prod.mk.inj (Option.some.inj hSame)).1
  rw [toNat_slot isStatic (slotCount_take_lt_of_le hSlots hI),
    toNat_slot isStatic (slotCount_take_lt_of_le hSlots hJ)] at hSlot
  exact Nat.ne_of_lt (slotCount_take_lt hBefore (Nat.le_of_lt hJ)) (Nat.add_left_cancel hSlot)

/-- The parameters stay the first variables of the table. -/
theorem parameters_eq_take (grows : Grows (ofDescriptor owner isStatic descriptor) table) :
    table.parameters = table.list.take descriptor.parameters.length := by
  obtain ⟨added, hAdded⟩ := grows.headers
  obtain ⟨front, back, hList, hFront, hBack⟩ := List.map_eq_append_iff.mp hAdded
  have hLength : front.length = descriptor.parameters.length := by
    have hEntries : (parameterEntries (if isStatic then 0 else 1) 0 descriptor.parameters).length =
        descriptor.parameters.length := length_parameterEntries ..
    rw [← hEntries, ← List.length_map LocalVariable.header, hFront, List.length_map]
    rfl
  have hParameters : ∀ entry ∈ front, entry.parameter = true := by
    intro entry hEntry
    have hHeader : entry.header ∈ (ofDescriptor owner isStatic descriptor).list.map LocalVariable.header :=
      hFront ▸ List.mem_map_of_mem hEntry
    obtain ⟨known, hKnown, hSame⟩ := List.mem_map.mp hHeader
    have hSnd : known.parameter = entry.parameter := congrArg Prod.snd hSame
    rw [← hSnd]
    exact parameter_of_mem_parameterEntries hKnown
  have hOthers : ∀ entry ∈ back, ¬entry.parameter = true := by
    intro entry hEntry
    have hHeader : entry.header ∈ added.map (·, false) := hBack ▸ List.mem_map_of_mem hEntry
    obtain ⟨_, -, hSame⟩ := List.mem_map.mp hHeader
    have hSnd : false = entry.parameter := congrArg Prod.snd hSame
    rw [← hSnd]
    exact Bool.false_ne_true
  rw [parameters, hList, List.filter_append, List.filter_eq_self.mpr hParameters,
    List.filter_eq_nil_iff.mpr hOthers, List.append_nil, ← hLength, List.take_left]

theorem find?_parameter_of_grows (hSlots : slotCount descriptor.parameters ≤ 65535) {type : JvmType}
    (grows : Grows (ofDescriptor owner isStatic descriptor) table) (hType : descriptor.parameters[i]? = some type) :
    ∃ entry, table.parameters[i]? = some entry ∧ table.list[i]? = some entry ∧ entry.kind = .ofType type ∧
      entry.slot.toNat = (if isStatic then 0 else 1) + slotCount (descriptor.parameters.take i) ∧
      table.find? entry.slot entry.kind = some i := by
  have hInside : i < descriptor.parameters.length := (List.getElem?_eq_some_iff.mp hType).1
  have hPlace := grows.getElem? ((getElem?_places_ofDescriptor i).trans (congrArg _ hType))
  rw [places, List.getElem?_map] at hPlace
  obtain ⟨entry, hEntry, hSame⟩ := Option.map_eq_some_iff.mp hPlace
  obtain ⟨hSlot, hKind⟩ := Prod.mk.inj hSame
  refine ⟨entry, ?_, hEntry, hKind, ?_, ?_⟩
  · rw [parameters_eq_take grows, List.getElem?_take_of_lt hInside, hEntry]
  · rw [hSlot, toNat_slot isStatic (slotCount_take_lt_of_le hSlots hInside)]
  · refine find?_of_getElem? (grows.distinct (distinct_ofDescriptor hSlots)) ?_
    rw [places, List.getElem?_map, hEntry]
    rfl

/-- The call at an index answers with an operand of the variable. -/
def Names (answers : List (Option OperandKind)) (index : Nat) (id : VariableId) : Prop :=
  answers[index]? = some (some (.localVariable id false))

/-- A load reads what was stored, whatever is called between, except from slot zero of an instance method, where every
load reads `this`. Two calls answer with one variable exactly if they have the same slot and kind, and a parameter is
the variable of its kind behind the slots of the parameters before it. -/
theorem load_reads_store (owner : String) (isStatic : Bool) (descriptor : MethodDescriptor)
    (hSlots : slotCount descriptor.parameters ≤ 65535) (calls : List Call) (supply : Supply) :
    ∃ answers table supply',
      (runCalls calls (ofDescriptor owner isStatic descriptor)).run supply = ((answers, table), supply') ∧
      (∀ (i j : Nat) slot storeOp loadOp value kind, calls[i]? = some (Call.store slot storeOp value) →
        calls[j]? = some (Call.load slot loadOp) → SlotKind.ofOpcode? storeOp = some kind →
        SlotKind.ofOpcode? loadOp = some kind → isStatic = true ∨ slot ≠ 0 →
        ∃ id, Names answers i id ∧ Names answers j id) ∧
      (∀ (j : Nat) loadOp, calls[j]? = some (Call.load 0 loadOp) → isStatic = false →
        answers[j]? = some (some OperandKind.this)) ∧
      (∀ (i j : Nat) (first second : Call) id id', calls[i]? = some first → calls[j]? = some second →
        Names answers i id → Names answers j id' → (id = id' ↔ first.place = second.place)) ∧
      table.parameters.length = descriptor.parameters.length ∧
      ∀ (i : Nat) type, descriptor.parameters[i]? = some type →
        ∃ entry, table.parameters[i]? = some entry ∧ table.list[i]? = some entry ∧ entry.kind = .ofType type ∧
          entry.slot.toNat = (if isStatic then 0 else 1) + slotCount (descriptor.parameters.take i) ∧
          table.find? entry.slot entry.kind = some i := by
  obtain ⟨answers, table, supply', hRun, grows, hAnswers⟩ :=
    exists_runCalls calls (ofDescriptor owner isStatic descriptor) supply
  have distinct : Distinct table := grows.distinct (distinct_ofDescriptor hSlots)
  have hUnique {id id' : VariableId} {place : UInt16 × SlotKind} (hFirst : table.places[id]? = some place)
      (hSecond : table.places[id']? = some place) : id = id' :=
    (List.getElem?_inj (List.getElem?_eq_some_iff.mp hFirst).1 distinct).mp (hFirst.trans hSecond.symm)
  have hThis (slot : UInt16) : table.isThis slot = (!isStatic && slot == 0) := grows.isThis slot
  refine ⟨answers, table, supply', hRun, ?_, ?_, ?_, ?_, ?_⟩
  · intro i j slot storeOp loadOp value kind hStore hLoad hStoreKind hLoadKind hSlot
    obtain ⟨_, hI, id, rfl, hPlace⟩ := exists_answer hAnswers hStore
    obtain ⟨_, hJ, hAnswer⟩ := exists_answer hAnswers hLoad
    have hOther : ¬table.isThis slot = true := by
      rw [hThis]
      rcases hSlot with rfl | hSlot
      · exact Bool.false_ne_true
      · simp [hSlot]
    rw [Call.Answers, if_neg hOther] at hAnswer
    obtain ⟨id', rfl, hPlace'⟩ := hAnswer
    rw [SlotKind.accessed, hLoadKind] at hPlace'
    rw [SlotKind.accessed, hStoreKind] at hPlace
    exact ⟨id, hI, hUnique hPlace hPlace' ▸ hJ⟩
  · intro j loadOp hLoad hStatic
    obtain ⟨_, hJ, hAnswer⟩ := exists_answer hAnswers hLoad
    rw [Call.Answers, if_pos (by rw [hThis, hStatic]; rfl)] at hAnswer
    rw [hJ, hAnswer]
  · intro i j first second id id' hFirst hSecond hI hJ
    obtain ⟨_, hI', hAnswer⟩ := exists_answer hAnswers hFirst
    obtain ⟨_, hJ', hAnswer'⟩ := exists_answer hAnswers hSecond
    cases Option.some.inj (hI.symm.trans hI')
    cases Option.some.inj (hJ.symm.trans hJ')
    refine ⟨fun hSame => ?_, fun hSame => ?_⟩
    · exact Option.some.inj (hAnswer.places.symm.trans (hSame ▸ hAnswer'.places))
    · exact hUnique hAnswer.places (hSame ▸ hAnswer'.places)
  · have hHeaders : descriptor.parameters.length ≤ table.list.length := by
      obtain ⟨added, hAdded⟩ := grows.headers
      have hLength := congrArg List.length hAdded
      rw [List.length_append, List.length_map, List.length_map] at hLength
      exact hLength ▸ Nat.le_trans (Nat.le_of_eq (length_parameterEntries ..).symm) (Nat.le_add_right _ _)
    rw [parameters_eq_take grows, List.length_take, Nat.min_eq_left hHeaders]
  · exact fun i type hType => find?_parameter_of_grows hSlots grows hType

/-- A slot behind a long and an int is stored to as a reference, named as an int and read as a reference. -/
def interrupted : List Call :=
  [.store 4 .astore { id := 0, type := .known .string, kind := .string "x" }, .rename 4 "n" "I", .lookUp 4 .int,
    .load 4 .aload]

theorem load_reads_store_interrupted :
    slotCount [.long, .int] ≤ 65535 ∧ ∃ answers table supply',
      (runCalls interrupted (ofDescriptor "A" false { parameters := [.long, .int], result := .void })).run {} =
        ((answers, table), supply') ∧
      (∃ id, Names answers 0 id ∧ Names answers 3 id) ∧
      ∃ entry, table.parameters[1]? = some entry ∧ entry.slot.toNat = 3 ∧ table.find? entry.slot entry.kind = some 1 := by
  have hSlots : slotCount [.long, .int] ≤ 65535 := by decide
  obtain ⟨answers, table, supply', hRun, hLoads, -, -, -, hParameters⟩ :=
    load_reads_store "A" false { parameters := [.long, .int], result := .void } hSlots interrupted {}
  obtain ⟨entry, hEntry, -, -, hSlot, hFind⟩ := hParameters 1 .int rfl
  have hOther : (4 : UInt16) ≠ 0 := by decide
  exact ⟨hSlots, answers, table, supply', hRun, hLoads 0 3 4 .astore .aload _ .reference rfl rfl rfl rfl (.inr hOther),
    entry, hEntry, hSlot, hFind⟩

/-- What an instance method stores to slot zero is not read back. -/
theorem receiver_not_overwritten :
    ∃ answers table supply',
      (runCalls [.store 0 .astore { id := 0, type := .known .string, kind := .string "x" }, .load 0 .aload]
        (ofDescriptor "A" false { parameters := [], result := .void })).run {} = ((answers, table), supply') ∧
      Names answers 0 0 ∧ SlotKind.ofOpcode? .astore = SlotKind.ofOpcode? .aload ∧
      ¬∃ id, Names answers 0 id ∧ Names answers 1 id := by
  refine ⟨_, _, _, rfl, rfl, rfl, ?_⟩
  rintro ⟨id, -, hLoad⟩
  cases hLoad

end LocalVariables

end Decompiler
