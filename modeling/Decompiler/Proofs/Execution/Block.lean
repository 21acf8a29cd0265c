import Decompiler.Execution.Run
import Decompiler.Proofs.History.Recent
import Decompiler.Proofs.Local.Table
import Decompiler.Proofs.Operand.Coercion

/-!
The execution of a unit that is a single block. Its state is the operand stack of one node with the supply of
identities and types, the locals, and what was executed most recently; the equations of the stack operations speak
of these alone.
-/

namespace Decompiler

namespace Execution

variable {setting : Setting} {before middle after : Execution} {α β : Type}

/-- The step gives the result and leaves the state. -/
def Yields (setting : Setting) (action : ExecutionM α) (before : Execution) (result : α) (after : Execution) : Prop :=
  (action setting).run.run before = (.ok result, after)

/-- Two steps in sequence. -/
theorem Yields.bind {action : ExecutionM α} {next : α → ExecutionM β} {value : α} {result : β}
    (first : Yields setting action before value middle) (second : Yields setting (next value) middle result after) :
    Yields setting (action >>= next) before result after := by
  change (ExceptT.run (action setting >>= fun value => next value setting)).run before = _
  rw [ExceptT.run_bind, StateT.run_bind, show (action setting).run.run before = (.ok value, middle) from first]
  exact second

theorem yields_pure (result : α) (state : Execution) : Yields setting (pure result) state result state := rfl

theorem yields_get (state : Execution) : Yields setting get state state state := rfl

theorem yields_read (state : Execution) : Yields setting read state setting state := rfl

theorem yields_modify (change : Execution → Execution) (state : Execution) :
    Yields setting (modify change) state () (change state) := rfl

theorem yields_changeGraph (change : Graph → Graph) (state : Execution) :
    Yields setting (changeGraph change) state () { state with graph := change state.graph } := rfl

/-- A step of the supply changes nothing else. -/
theorem yields_supply (step : SupplyM α) (state : Execution) :
    Yields setting (step : ExecutionM α) state (step.run state.graph.supply).1
      { state with graph := { state.graph with supply := (step.run state.graph.supply).2 } } := rfl

theorem yields_typeOf (operand : Operand) (state : Execution) :
    Yields setting (typeOf operand) state (state.graph.typeOf operand) state := rfl

theorem yields_endsIn (template : List Pattern) (state : Execution) :
    Yields setting (endsIn template) state (state.history.endsInTemplate template) state := rfl

end Execution

open Execution

/-- The state of a unit that is a single block. The codes and the touched slots are the executed ones, latest
first. -/
structure Block where
  unit : CompiledUnit
  descriptor : MethodDescriptor
  stack : List Operand := []
  destination : Option Destination := none
  supply : Supply := {}
  locals : LocalVariables
  codes : List Opcode := [.label]
  touched : List UInt16 := []

namespace Block

/-- The block before its first instruction. -/
def start (unit : CompiledUnit) (descriptor : MethodDescriptor) : Block :=
  { unit, descriptor, locals := .ofDescriptor unit.owner unit.isStatic descriptor }

def node (block : Block) : Node :=
  { name := "N" ++ toString 0, stack := block.stack, destination := block.destination }

def graph (block : Block) : Graph := { nodes := #[block.node], order := [0], supply := block.supply }

def execution (block : Block) : Execution :=
  { Execution.initial block.unit block.descriptor with
    graph := block.graph, locals := block.locals, current := some 0
    history := .ofCodes block.codes, slots := .ofSlots block.touched }

variable {setting : Setting} {block : Block} {rest : List Operand} {top : Operand} {α : Type}

@[simp] theorem graph_execution : block.execution.graph = block.graph := rfl

@[simp] theorem history_execution : block.execution.history = .ofCodes block.codes := rfl

@[simp] theorem slots_execution : block.execution.slots = .ofSlots block.touched := rfl

theorem yields_here : Yields setting here block.execution 0 block.execution := rfl

theorem yields_record (op : Opcode) :
    Yields setting (record op) block.execution () { block with codes := op :: block.codes }.execution := rfl

/-- The slot of an access is noted for the increments of locals. -/
theorem yields_touch (slot : UInt16) :
    Yields setting (modify fun state => { state with slots := state.slots.record slot }) block.execution ()
      { block with touched := slot :: block.touched }.execution := rfl

theorem yields_supply (step : SupplyM α) :
    Yields setting (step : ExecutionM α) block.execution (step.run block.supply).1
      { block with supply := (step.run block.supply).2 }.execution := rfl

/-- A step of the table of locals may make identities. -/
theorem yields_withVariables (step : LocalVariables → SupplyM (α × LocalVariables)) :
    Yields setting (withVariables step) block.execution ((step block.locals).run block.supply).1.1
      { block with
        supply := ((step block.locals).run block.supply).2
        locals := ((step block.locals).run block.supply).1.2 }.execution := rfl

/-! ### The operand stack -/

theorem yields_push (operand : Operand) :
    Yields setting (push operand) block.execution () { block with stack := block.stack ++ [operand] }.execution := rfl

/-- The top of the only node is where its stack ends. -/
theorem locate?_top (hStack : block.stack = rest ++ [top]) : block.graph.locate? 0 0 = some (0, rest.length) := by
  change (if 0 < block.stack.length then some (0, block.stack.length - 1 - 0) else _) = _
  simp [hStack]

/-- Below the bottom of the only node there is nothing. -/
theorem locate?_empty (hStack : block.stack = []) : block.graph.locate? 0 0 = none := by
  change (if 0 < block.stack.length then _ else none) = _
  simp [hStack]

theorem peek?_graph : block.graph.peek? 0 0 = block.stack.getLast? := by
  rcases List.eq_nil_or_concat block.stack with hStack | ⟨rest, top, hStack⟩
  · simp [Graph.peek?, locate?_empty hStack, hStack]
  · rw [List.concat_eq_append] at hStack
    rw [Graph.peek?, locate?_top hStack, hStack]
    change block.stack[rest.length]? = _
    simp [hStack]

/-- A look at the top, which an empty stack has not. -/
theorem yields_peek? : Yields setting (Execution.peek? 0) block.execution block.stack.getLast? block.execution := by
  rw [← peek?_graph]
  rfl

theorem mapStack_graph (change : List Operand → List Operand) :
    block.graph.mapStack 0 change = { block with stack := change block.stack }.graph := rfl

/-- The topmost operand is taken from the only node. -/
theorem take?_graph (hStack : block.stack = rest ++ [top]) :
    block.graph.take? 0 0 = some (top, { block with stack := rest }.graph) := by
  rw [Graph.take?, locate?_top hStack]
  change (block.stack[rest.length]?.bind fun operand =>
    some (operand, block.graph.mapStack 0 (·.eraseIdx rest.length))) = _
  rw [mapStack_graph, hStack, List.getElem?_concat_length, List.eraseIdx_append_of_length_le (Nat.le_refl _)]
  simp

/-- Taking an operand leaves the stack without it. -/
theorem yields_take (hStack : block.stack = rest ++ [top]) :
    Yields setting (take 0) block.execution top { block with stack := rest }.execution := by
  refine yields_here.bind ((yields_get _).bind ?_)
  rw [graph_execution, take?_graph hStack]
  rfl

/-- The entry on top is changed where it lies. -/
theorem changeEntry_graph (hStack : block.stack = rest ++ [top]) (change : Operand → Operand) :
    block.graph.changeEntry 0 0 change = { block with stack := rest ++ [change top] }.graph := by
  rw [Graph.changeEntry, locate?_top hStack]
  change block.graph.mapStack 0 (·.modify rest.length change) = _
  rw [mapStack_graph, hStack, List.modify_eq_take_drop]
  simp

/-- A change of the topmost entry is the only change of the state. -/
theorem yields_changeEntry (hStack : block.stack = rest ++ [top]) (change : Operand → Operand) :
    Yields setting (changeEntry 0 change) block.execution ()
      { block with stack := rest ++ [change top] }.execution := by
  have hGraph : Yields setting (changeGraph (·.changeEntry 0 0 change)) block.execution () _ :=
    yields_changeGraph _ _
  rw [graph_execution, changeEntry_graph hStack change] at hGraph
  exact yields_here.bind hGraph

/-- The value on top of the stack is taken. -/
theorem yields_pop (hStack : block.stack = rest ++ [top]) (hSingle : top.duplicated = false) :
    Yields setting (pop 0) block.execution top { block with stack := rest }.execution := by
  have hPop : block.graph.pop? 0 0 = some (top, { block with stack := rest }.graph) := by
    simp [Graph.pop?, peek?_graph, take?_graph hStack, hStack, hSingle]
  refine yields_here.bind ((yields_get _).bind ?_)
  rw [graph_execution, hPop]
  rfl

/-- Of a value on top of the stack that is duplicated, one copy is left. -/
theorem yields_pop_duplicated (hStack : block.stack = rest ++ [top]) (hDouble : top.duplicated = true) :
    Yields setting (pop 0) block.execution { top with duplicated := false }
      { block with stack := rest ++ [{ top with duplicated := false }] }.execution := by
  have hPop : block.graph.pop? 0 0 = some ({ top with duplicated := false },
      { block with stack := rest ++ [{ top with duplicated := false }] }.graph) := by
    simp [Graph.pop?, peek?_graph, changeEntry_graph hStack, hStack, hDouble]
  refine yields_here.bind ((yields_get _).bind ?_)
  rw [graph_execution, hPop]
  rfl

/-- A value that is no new object is copied by a mark on its entry. -/
theorem yields_duplicate (hStack : block.stack = rest ++ [top])
    (hNew : (InstructionHistory.ofCodes block.codes).endsInTemplate [Opcode.new, Category.duplicate] = false) :
    Yields setting (duplicate .dup) block.execution ()
      { block with stack := rest ++ [{ top with duplicated := true }] }.execution := by
  have hMark : Yields setting (markDuplicated 0) block.execution true
      { block with stack := rest ++ [{ top with duplicated := true }] }.execution := by
    refine Yields.bind rfl (Yields.bind yields_peek? (Yields.bind (yields_changeEntry hStack _) ?_))
    rw [hStack, List.getLast?_concat]
    exact yields_pure _ _
  refine Yields.bind (yields_endsIn _ _) ?_
  rw [history_execution, hNew]
  exact Yields.bind hMark rfl

/-! ### Loads -/

/-- A load does not read an increment unless the latest instructions are the increment and the load of one local. -/
theorem yields_reuseIncrement_of_not {op : Opcode} {slot : UInt16}
    (hApplies : (op == .iload && (InstructionHistory.ofCodes block.codes).endsInTemplate [Opcode.iinc, Opcode.iload] &&
      (SlotHistory.ofSlots block.touched).repeats) = false) :
    Yields setting (reuseIncrement op slot) block.execution false block.execution := by
  refine Yields.bind (yields_endsIn _ _) (Yields.bind (yields_get _) ?_)
  simp only [history_execution, slots_execution, hApplies, Bool.not_false, ↓reduceIte]
  rfl

/-- A local that is read is put on the stack. -/
theorem yields_pushLocal {op : Opcode} {slot : UInt16} {id : VariableId} {table : LocalVariables} {supply : Supply}
    (hThis : block.locals.isThis slot = false)
    (hVariable : (block.locals.variableAt slot ((SlotKind.ofOpcode? op).getD .reference)).run block.supply =
      ((id, table), supply)) :
    Yields setting (do push (← withVariables (·.load slot op))) block.execution ()
      { block with
        stack := block.stack ++ [table.operand id supply.nextId]
        supply := { supply with nextId := supply.nextId + 1 }
        locals := table }.execution := by
  refine Yields.bind (yields_withVariables _) ?_
  rw [LocalVariables.load_eq hThis hVariable]
  exact yields_push _

/-- A load that reads no increment puts the local on the stack. -/
theorem yields_var_load {op : Opcode} {slot : UInt16} {id : VariableId} {table : LocalVariables} {supply : Supply}
    (hLoad : op.isLoad = true)
    (hApplies : (op == .iload &&
      (InstructionHistory.ofCodes (op :: block.codes)).endsInTemplate [Opcode.iinc, Opcode.iload] &&
        (SlotHistory.ofSlots (slot :: block.touched)).repeats) = false)
    (hThis : block.locals.isThis slot = false)
    (hVariable : (block.locals.variableAt slot ((SlotKind.ofOpcode? op).getD .reference)).run block.supply =
      ((id, table), supply)) :
    Yields setting (accept (.var op slot)) block.execution ()
      { block with
        stack := block.stack ++ [table.operand id supply.nextId]
        supply := { supply with nextId := supply.nextId + 1 }
        locals := table
        codes := op :: block.codes
        touched := slot :: block.touched }.execution := by
  refine Yields.bind (yields_record op) (Yields.bind (yields_touch slot) ?_)
  rw [if_pos hLoad]
  refine Yields.bind (yields_reuseIncrement_of_not hApplies) ?_
  exact yields_pushLocal hThis hVariable

/-! ### Returns -/

/-- A template with a frame in it needs a frame among the instructions. -/
theorem endsInTemplate_frame {codes : List Opcode} {template : List Pattern}
    (hFrames : ∀ op ∈ codes, op.isFrame = false) (hPattern : template.reverse[2]? = some (.category .frame)) :
    (InstructionHistory.ofCodes codes).endsInTemplate template = false :=
  InstructionHistory.endsInTemplate_eq_false hPattern fun op hCode => hFrames op (List.mem_of_getElem? hCode)

/-- Two returns of constants are looked for where a boolean is returned, and a frame stands between them. -/
theorem yields_foldBooleanReturn
    (hFold : block.descriptor.result ≠ .boolean ∨ ∀ op ∈ block.codes, op.isFrame = false) :
    Yields setting foldBooleanReturn block.execution () block.execution := by
  refine Yields.bind (yields_get _) ?_
  by_cases hResult : block.descriptor.result = .boolean
  · have hFrames := hFold.resolve_left (not_not_intro hResult)
    have hReturns (first second : Opcode) :
        Yields setting (returnsConstants first second) block.execution false block.execution := by
      refine Yields.bind (yields_endsIn _ _) ?_
      rw [history_execution, endsInTemplate_frame hFrames rfl]
      refine (yields_endsIn _ _).trans ?_
      rw [history_execution, endsInTemplate_frame hFrames rfl]
    rw [show block.execution.descriptor.result = .boolean from hResult]
    exact Yields.bind (hReturns _ _) (Yields.bind (hReturns _ _) rfl)
  · have hOther : (block.execution.descriptor.result != .boolean) = true := bne_iff_ne.mpr hResult
    rw [hOther]
    rfl

/-- The value on top is returned as it is, after it was told the type of the result. -/
theorem yields_return {op : Opcode} {value : Operand} {below : List Operand} (hOp : op ≠ .vreturn)
    (hFold : block.descriptor.result ≠ .boolean ∨ ∀ op ∈ block.codes, op.isFrame = false)
    (hPop : Yields setting (pop 0) block.execution value { block with stack := below }.execution)
    (hStored : value.StoredAs block.descriptor.result) :
    let told := ((value.coerce block.descriptor.result).run block.supply).2
    Yields setting (returnValue op) block.execution ()
      { block with
        stack := below ++ [({ id := told.nextId, type := .known block.descriptor.result, statement := true
                              kind := .returns (some value) } : Operand)]
        destination := some .termination
        supply := { told with nextId := told.nextId + 1 } }.execution := by
  intro told
  have hCoerce : Yields setting (value.coerce block.descriptor.result : ExecutionM Operand)
      { block with stack := below }.execution value { block with stack := below, supply := told }.execution := by
    have hStep : Yields setting (value.coerce block.descriptor.result : ExecutionM Operand)
      { block with stack := below }.execution _ _ := yields_supply _
    rwa [hStored.coerce_fst] at hStep
  have hTail : Yields setting (do
      let type := (← get).descriptor.result
      let value ← (← pop 0).coerce type
      pushStatement (← Operand.typed (.returns (some value)) type)
      let here := (← get).current.getD 0
      changeGraph (·.setDestination here .termination)) block.execution ()
      { block with
        stack := below ++ [({ id := told.nextId, type := .known block.descriptor.result, statement := true
                              kind := .returns (some value) } : Operand)]
        destination := some .termination
        supply := { told with nextId := told.nextId + 1 } }.execution := by
    refine Yields.bind (yields_get _) (Yields.bind hPop (Yields.bind hCoerce (Yields.bind (yields_supply _)
      (Yields.bind (yields_push _) rfl))))
  refine Yields.bind yields_here ?_
  rw [if_neg hOp]
  dsimp only
  split
  · exact Yields.bind (yields_foldBooleanReturn hFold) hTail
  · exact hTail

/-- A value is returned from the top, where no two returns of constants can be folded. -/
theorem yields_returnValue {op : Opcode} {value : Operand} {below : List Operand} (hOp : op ≠ .vreturn)
    (hFold : block.descriptor.result ≠ .boolean ∨ ∀ op ∈ block.codes, op.isFrame = false)
    (hPop : Yields setting (pop 0) block.execution value { block with stack := below }.execution)
    (hStored : value.StoredAs block.descriptor.result) :
    ∃ id type supply, Yields setting (returnValue op) block.execution ()
      { block with
        stack := below ++ [({ id, type, statement := true, kind := .returns (some value) } : Operand)]
        destination := some .termination
        supply }.execution :=
  ⟨_, _, _, yields_return hOp hFold hPop hStored⟩

end Block

end Decompiler
