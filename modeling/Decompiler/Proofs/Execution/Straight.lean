import Decompiler.Proofs.Execution.Block
import Decompiler.Proofs.Graph.WellFormed

/-!
Units without labels. Their instructions run on one block, whose node is neither dropped nor split at the end, so
that of the passes that finish a graph only the placing of declarations can change it.
-/

namespace Decompiler

open Execution

variable {setting : Setting} {unit : CompiledUnit} {descriptor : MethodDescriptor} {block middle after : Block}

/-! ### Running events -/

namespace Event

/-- The code that an event enters into the history before it does anything else. -/
def code? : Event → Option Opcode
  | .insn op | .int op _ | .var op _ | .method op _ | .type op _ => some op
  | .iinc .. => some .iinc
  | .ldc _ => some .ldc
  | .field op name => if op = .getstatic ∧ name.name = "$assertionsDisabled" then none else some op
  | _ => none

theorem accept_eq_record {event : Event} {op : Opcode} (hCode : event.code? = some op) :
    ∃ next : ExecutionM Unit, accept event = record op >>= fun _ => next := by
  cases event with
  | field found name =>
      by_cases hFlag : found = .getstatic ∧ name.name = "$assertionsDisabled"
      · simp [code?, hFlag] at hCode
      · simp only [code?, if_neg hFlag, Option.some.injEq] at hCode
        subst hCode
        exact ⟨_, if_neg hFlag⟩
  | insn | int | var | method | type | iinc | ldc =>
      cases hCode
      exact ⟨_, rfl⟩
  | _ => cases hCode

end Event

/-- Executing the events, which are instructions, leads from one state of the block to the other. -/
structure Runs (setting : Setting) (events : List Event) (before after : Block) : Prop where
  yields : Yields setting (events.forM accept) before.execution () after.execution
  codes : ∀ event ∈ events, event.code?.isSome

namespace Runs

theorem nil (block : Block) : Runs setting [] block block := ⟨rfl, fun _ hEvent => absurd hEvent List.not_mem_nil⟩

theorem single {event : Event} {op : Opcode} (hCode : event.code? = some op)
    (first : Yields setting (accept event) block.execution () after.execution) : Runs setting [event] block after := by
  refine ⟨?_, fun other hOther => ?_⟩
  · rw [List.forM_eq_forM, List.forM_cons]
    exact first.bind rfl
  · rw [List.mem_singleton.mp hOther, hCode]
    rfl

theorem append {events others : List Event} (first : Runs setting events block middle)
    (second : Runs setting others middle after) : Runs setting (events ++ others) block after := by
  refine ⟨?_, fun event hEvent => (List.mem_append.mp hEvent).elim (first.codes event) (second.codes event)⟩
  rw [List.forM_eq_forM, List.forM_append]
  exact Yields.bind first.yields second.yields

/-- What does the same in two states does the same when it is followed by something. -/
theorem run_bind_congr {α β : Type} {action : ExecutionM α} {before other : Execution}
    (hSame : (action setting).run.run before = (action setting).run.run other) (next : α → ExecutionM β) :
    ((action >>= next) setting).run.run before = ((action >>= next) setting).run.run other := by
  change (ExceptT.run (action setting >>= fun value => next value setting)).run before =
    (ExceptT.run (action setting >>= fun value => next value setting)).run other
  rw [ExceptT.run_bind, StateT.run_bind, StateT.run_bind, hSame]

/-- The first instruction of a unit makes the block. -/
theorem ofInitial {events : List Event} (hSome : events ≠ [])
    (runs : Runs setting events (.start unit descriptor) after) :
    Yields setting (events.forM accept) (initial unit descriptor) () after.execution := by
  obtain ⟨event, rest, rfl⟩ := List.exists_cons_of_ne_nil hSome
  obtain ⟨op, hCode⟩ := Option.isSome_iff_exists.mp (runs.codes event List.mem_cons_self)
  obtain ⟨next, hAccept⟩ := Event.accept_eq_record hCode
  have hRecord : (record op setting).run.run (initial unit descriptor) =
      (record op setting).run.run (Block.start unit descriptor).execution := rfl
  have yields := runs.yields
  rw [List.forM_eq_forM, List.forM_cons, hAccept] at yields ⊢
  exact (run_bind_congr (run_bind_congr hRecord _) _).trans yields

end Runs

/-! ### The end of a unit -/

namespace Block

/-- The graph of the block after its last instruction; back-edges were looked for. -/
def settled (block : Block) : Graph := { block.graph with stale := true }

/-- The graph of the block when the unit is finished. -/
def finished (block : Block) (options : Options) : Graph :=
  if options.placeDeclarations then ((Placement.place block.locals {} []).run block.settled).2 else block.settled

theorem settleNode_graph (hStack : block.stack ≠ []) (hPlain : ∀ operand ∈ block.stack, operand.isCondition = false) :
    settleNode 0 block.graph = block.graph := by
  have hEmpty : block.stack.isEmpty = false := by simpa using hStack
  have hPlain : ∀ operand ∈ (block.graph.node 0).stack, operand.isCondition = false := hPlain
  change (if (true && block.stack.isEmpty) = true then _ else (block.graph.splitMixed 0).2) = _
  rw [hEmpty, Graph.splitMixed, Graph.splitFrom_plain hPlain]
  rfl

theorem yields_resolve (remove : Bool) (state : Execution) :
    Yields setting (Regions.resolve {} remove : ExecutionM Regions) state {} state := by
  cases remove <;> rfl

theorem yields_finish (hStack : block.stack ≠ []) (hPlain : ∀ operand ∈ block.stack, operand.isCondition = false) :
    ∃ trace, Yields setting finish block.execution ()
      { block.execution with graph := block.finished setting.options, trace } := by
  have hSettle : Yields setting (changeGraph settle) block.execution () block.execution := by
    refine (yields_changeGraph _ _).trans ?_
    change (_, ({ block.execution with graph := settleNode 0 block.graph } : Execution)) = _
    rw [settleNode_graph hStack hPlain]
    rfl
  have hBackedges : Yields setting (changeGraph Graph.computeBackedges) block.execution ()
      { block.execution with graph := block.settled } := yields_changeGraph _ _
  refine ⟨if setting.options.trace then
      [.pass (toString (block.finished setting.options).order.length ++ " nodes, " ++
        toString (block.finished setting.options).edgeCount ++ " edges, " ++ toString 0 ++ " protected regions")]
    else [], ?_⟩
  refine hSettle.bind ((yields_get _).bind (hBackedges.bind ((yields_read _).bind ((yields_get _).bind
    ((yields_resolve _ _).bind ((yields_modify _ _).bind ?_))))))
  rw [finished]
  cases setting.options.placeDeclarations <;> cases setting.options.trace <;> rfl

/-- Without locals of its own a unit needs no declarations. -/
theorem finished_of_parameters (hParameters : ∀ entry ∈ block.locals.list, entry.parameter = true) (options : Options) :
    block.finished options = block.settled := by
  have hLocals : ((List.range block.locals.list.length).filter fun id =>
      !(block.locals.get id).parameter && !(Regions.catchVariables {}).contains id) = [] := by
    refine List.filter_eq_nil_iff.mpr fun id hId => ?_
    have hLength : id < block.locals.list.length := List.mem_range.mp hId
    have hParameter : (block.locals.get id).parameter = true := by
      rw [LocalVariables.get, List.getD_eq_getElem?_getD, List.getElem?_eq_getElem hLength]
      exact hParameters _ (List.getElem_mem hLength)
    simp [hParameter]
  rw [finished, Placement.place, hLocals]
  split <;> rfl

end Block

/-- The outcome of a unit whose instructions fill the block. -/
theorem MethodBody.ofUnit_eq (hText : MethodDescriptor.ofText? unit.descriptor = some descriptor)
    (hEvents : Yields setting (unit.events.forM accept) (initial unit descriptor) () block.execution)
    (hStack : block.stack ≠ []) (hPlain : ∀ operand ∈ block.stack, operand.isCondition = false) :
    (MethodBody.ofUnit unit setting).1 =
      .ok { block.execution.toMethodBody with graph := block.finished setting.options } := by
  obtain ⟨trace, hFinish⟩ : ∃ trace, Yields setting finish block.execution ()
      { block.execution with graph := block.finished setting.options, trace } := Block.yields_finish hStack hPlain
  have hRun : Yields setting (runEvents unit.events) (initial unit descriptor) ()
      { block.execution with graph := block.finished setting.options, trace } := hEvents.bind hFinish
  unfold Yields at hRun
  simp only [ofUnit, hText, hRun]
  rfl

end Decompiler
