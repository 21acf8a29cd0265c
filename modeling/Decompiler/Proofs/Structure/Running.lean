import Decompiler.Proofs.Structure.Arena

/-!
Runs of the statements of an arena. What they do is told to a world, which decides how it goes on; control passes
through branches, loops, jumps and protected regions as it does in the listing. Runs are alike if they do the same and
end the same way, but for an end of the body of a loop, where a jump to the next round is as good as none.
-/

namespace Decompiler

namespace Running

/-! ### What happens in a run -/

/-- What a run does that is seen from outside. -/
inductive Action where
  /-- The statements of a node. -/
  | statements (node : NodeId)
  /-- A test, a selector or another operand of a statement. -/
  | evaluates (operand : Operand)
  /-- The next element of an iteration, if there is one. -/
  | advances (element : Operand)

/-- How an action ends. A test that chooses zero does not hold. -/
inductive Answer where
  | chooses (way : Nat)
  | returns
  | throws (exception : Nat)

/-- What decides how a run goes on after what has been done, the latest action first. -/
structure World where
  answer : List Action → Answer
  isInstance : Nat → String → Bool

/-- How a statement ends together with those that follow it. A jump may name the loop or switch that it is meant for. -/
inductive Ending where
  | completes
  | breaks (label : Option BreakableId)
  | continues (label : Option BreakableId)
  | returns
  | throws (exception : Nat)
  /-- The bound on the run was reached. -/
  | unfinished
  deriving DecidableEq

/-- What becomes of a loop at the end of its body: nothing if another round begins, else how the loop ends. -/
def Ending.ofBody? (loop : BreakableId) : Ending → Option Ending
  | .completes | .continues none => none
  | .continues (some label) => if label = loop then none else some (.continues (some label))
  | .breaks none => some .completes
  | .breaks (some label) => if label = loop then some .completes else some (.breaks (some label))
  | ending => some ending

/-- How a switch ends after its arms. -/
def Ending.ofArms (switch : BreakableId) : Ending → Ending
  | .breaks none => .completes
  | .breaks (some label) => if label = switch then .completes else .breaks (some label)
  | ending => ending

/-- What was done so far, and the ending. -/
abbrev Run := StateM (List Action) Ending

namespace Run

/-- The second run follows if the first one comes to its end. -/
def andThen (first second : Run) : Run := do
  match ← first with
  | .completes => second
  | ending => return ending

/-- The world sees the action and says how to go on. -/
def act (world : World) (action : Action) (next : Nat → Run) : Run := do
  modify (action :: ·)
  match world.answer (← get) with
  | .chooses way => next way
  | .returns => return .returns
  | .throws exception => return .throws exception

/-- A test that holds goes one way, one that fails the other. -/
def test (world : World) (action : Action) (holds fails : Run) : Run :=
  act world action fun way => if way = 0 then fails else holds

/-- Operands one after the other, any of which may end the run. -/
def evaluateAll (world : World) (operands : List Operand) (next : Run) : Run :=
  operands.foldr (fun operand next => act world (.evaluates operand) fun _ => next) next

/-- Another round of a loop, if the body does not leave it. -/
def again (loop : BreakableId) (body next : Run) : Run := do
  match (← body).ofBody? loop with
  | none => next
  | some ending => return ending

/-- Rounds of a loop, each of which goes on with the next one. -/
def rounds (round : Run → Run) : Nat → Run
  | 0 => return .unfinished
  | fuel + 1 => round (rounds round fuel)

/-- The arms of a switch, each of which goes on with the next one. -/
def fallThrough (switch : BreakableId) (arms : List Run) : Run :=
  Ending.ofArms switch <$> arms.foldr andThen (return .completes)

/-- The first handler for the exception. -/
def handled (world : World) (inner : StructureId → Run) (catches : List CatchArm) : Ending → Run
  | .throws exception =>
    match catches.find? fun arm => arm.exception.any (world.isInstance exception) with
    | some arm => inner arm.body
    | none => return .throws exception
  | ending => return ending

/-- A finally block runs however the region ends, and if it does not complete it ends instead of it. -/
def finished (last : Option Run) (ending : Ending) : Run :=
  match last, ending with
  | none, _ | some _, .unfinished => return ending
  | some block, _ => block.andThen (return ending)

/-- The body with its handlers, and the finally block at every ending. -/
def protect (world : World) (inner : StructureId → Run) (body : StructureId) (catches : List CatchArm) : Run := do
  let ending ← handled world inner catches (← inner body)
  finished ((catches.filter fun arm => arm.exception.isNone).getLast?.map fun arm => inner arm.body) ending

end Run

open Run

/-- The run of one statement with what follows it. `inner` runs other statements. -/
def runOf (world : World) (fuel : Nat) (inner : StructureId → Run) : Structure → Run
  | .empty => return .completes
  | .fragment node follow => act world (.statements node) fun _ => inner follow
  | .conditional _ condition body otherwise follow =>
    (test world (.evaluates condition) (inner body) (otherwise.elim (return .completes) inner)).andThen (inner follow)
  | .whileLoop _ loop condition body follow =>
    (rounds (fun next => test world (.evaluates condition) (again loop (inner body) next) (return .completes))
      fuel).andThen (inner follow)
  | .doWhile _ loop body condition follow =>
    (rounds (fun next => again loop (inner body) (test world (.evaluates condition) next (return .completes)))
      fuel).andThen (inner follow)
  | .forLoop _ loop initializer condition updates body follow =>
    (evaluateAll world initializer.toList (rounds (fun next => test world (.evaluates condition)
      (again loop (inner body) (evaluateAll world updates next)) (return .completes)) fuel)).andThen (inner follow)
  | .forEach _ loop element iterable body follow =>
    (evaluateAll world [iterable] (rounds (fun next => test world (.advances element)
      (again loop (inner body) next) (return .completes)) fuel)).andThen (inner follow)
  | .forever _ loop body follow => (rounds (again loop (inner body)) fuel).andThen (inner follow)
  -- A switch that is an expression runs where its value is used.
  | .switch _ _ _ _ _ true follow => inner follow
  | .switch _ id selector cases default false follow =>
    let bodies := cases.map SwitchArm.body ++ default.toList
    (act world (.evaluates selector) fun way =>
      fallThrough id ((bodies.drop (min way cases.length)).map inner)).andThen (inner follow)
  | .protect _ body catches follow => (protect world inner body catches).andThen (inner follow)
  | .breaks id labeled => return .breaks (if labeled then some id else none)
  | .continues id labeled => return .continues (if labeled then some id else none)

/-- The run of a statement to a bounded depth of nesting and a bounded number of rounds of each loop. -/
def run (world : World) (structures : Array Structure) : Nat → StructureId → Run
  | 0, _ => return .unfinished
  | fuel + 1, id => runOf world fuel (run world structures fuel) (structures.getD id .empty)

/-! ### Runs that are alike -/

/-- Ends that are the same, or at the end of the body of a loop a jump to the next round and none. -/
inductive Near (tail : Prop) : Ending → Ending → Prop where
  | same (ending : Ending) : Near tail ending ending
  | jump (hTail : tail) : Near tail (.continues none) .completes

/-- The runs do the same, and their ends are near each other. -/
def Alike (tail : Prop) (first second : Run) : Prop :=
  ∀ history, ∃ ending ending' after, first.run history = (ending, after) ∧
    second.run history = (ending', after) ∧ Near tail ending ending'

namespace Alike

variable {tail other : Prop} {world : World} {first first' second second' : Run} {next next' : Ending → Run}

theorem refl (action : Run) : Alike tail action action := fun _ => ⟨_, _, _, rfl, rfl, .same _⟩

theorem pure {ending ending' : Ending} (near : Near tail ending ending') :
    Alike tail (Pure.pure ending) (Pure.pure ending') := fun history => ⟨ending, ending', history, rfl, rfl, near⟩

/-- What may differ less may differ more. -/
theorem weaken (alike : Alike tail first second) (hWeaken : tail → other) :
    Alike other first second := fun history => by
  obtain ⟨ending, ending', after, hFirst, hSecond, near⟩ := alike history
  refine ⟨ending, ending', after, hFirst, hSecond, ?_⟩
  cases near with
  | same => exact .same ending
  | jump hTail => exact .jump (hWeaken hTail)

/-- Runs that may differ nowhere are the same. -/
theorem eq (alike : Alike False first second) : first = second := by
  funext history
  obtain ⟨ending, ending', after, hFirst, hSecond, near⟩ := alike history
  cases near with
  | same => exact hFirst.trans hSecond.symm
  | jump hTail => exact hTail.elim

/-- Runs that go on alike from alike endings are alike. -/
theorem bind (alike : Alike tail first first')
    (hNext : ∀ ending ending', Near tail ending ending' → Alike other (next ending) (next' ending')) :
    Alike other (first >>= next) (first' >>= next') := fun history => by
  obtain ⟨ending, ending', after, hFirst, hSecond, near⟩ := alike history
  have hBind {action : Run} {next : Ending → Run} {ending : Ending} (hRun : action.run history = (ending, after)) :
      (action >>= next).run history = (next ending).run after := by
    rw [StateT.run_bind, hRun]
    rfl
  rw [hBind hFirst, hBind hSecond]
  exact hNext ending ending' near after

theorem bind_same (alike : Alike False first first') (hNext : ∀ ending, Alike other (next ending) (next' ending)) :
    Alike other (first >>= next) (first' >>= next') :=
  alike.bind fun ending ending' near => by
    cases near with
    | same => exact hNext ending
    | jump hTail => exact hTail.elim

theorem andThen (alike : Alike False first first') (hSecond : Alike tail second second') :
    Alike tail (first.andThen second) (first'.andThen second') :=
  alike.bind_same fun ending => by
    cases ending with
    | completes => exact hSecond
    | _ => exact .refl _

/-- Where nothing follows, the end of the first run is the end of both. -/
theorem andThen_last {last : Prop} (alike : Alike last first first') (hSecond : Alike tail second second')
    (hLast : last → tail ∧ second' = return .completes) :
    Alike tail (first.andThen second) (first'.andThen second') :=
  alike.bind fun ending ending' near => by
    cases near with
    | same =>
        cases ending with
        | completes => exact hSecond
        | _ => exact .refl _
    | jump hJump =>
        obtain ⟨hTail, rfl⟩ := hLast hJump
        exact .pure (.jump hTail)

theorem act {action : Action} {next next' : Nat → Run} (hNext : ∀ way, Alike tail (next way) (next' way)) :
    Alike tail (Run.act world action next) (Run.act world action next') := fun history => by
  change ∃ ending ending' after, (match world.answer (action :: history) with
    | .chooses way => next way
    | .returns => Pure.pure .returns
    | .throws exception => Pure.pure (.throws exception) : Run).run (action :: history) = (ending, after) ∧
      (match world.answer (action :: history) with
      | .chooses way => next' way
      | .returns => Pure.pure .returns
      | .throws exception => Pure.pure (.throws exception) : Run).run (action :: history) = (ending', after) ∧ _
  cases world.answer (action :: history) with
  | chooses way => exact hNext way _
  | returns => exact refl (Pure.pure .returns) _
  | throws exception => exact refl (Pure.pure (.throws exception)) _

theorem test {action : Action} (holds : Alike tail first first') (fails : Alike tail second second') :
    Alike tail (Run.test world action first second) (Run.test world action first' second') :=
  .act fun way => by split <;> assumption

theorem evaluateAll (operands : List Operand) (alike : Alike tail first first') :
    Alike tail (Run.evaluateAll world operands first) (Run.evaluateAll world operands first') := by
  induction operands with
  | nil => exact alike
  | cons operand operands ih => exact .act fun _ => ih

/-- A loop goes on after a jump to the next round as it does at the end of its body. -/
theorem again (loop : BreakableId) (body : Alike True first first') (hNext : Alike False second second') :
    Alike False (Run.again loop first second) (Run.again loop first' second') :=
  body.bind fun ending ending' near => by
    cases near with
    | same =>
        split
        · exact hNext
        · exact .refl _
    | jump => exact hNext

/-- By induction on the number of rounds: each round ends its loop alike. -/
theorem rounds {round round' : Run → Run}
    (hRound : ∀ next next', Alike False next next' → Alike False (round next) (round' next')) (fuel : Nat) :
    Alike False (Run.rounds round fuel) (Run.rounds round' fuel) := by
  induction fuel with
  | zero => exact .refl _
  | succ fuel ih => exact hRound _ _ ih

/-- By induction on the arms: control falls into the next arm alike. -/
theorem fallThrough (switch : BreakableId) {inner inner' : StructureId → Run} {arms : List StructureId}
    (hArms : ∀ arm ∈ arms, Alike False (inner arm) (inner' arm)) :
    Alike False (Run.fallThrough switch (arms.map inner)) (Run.fallThrough switch (arms.map inner')) := by
  rw [List.map_congr_left fun arm hArm => (hArms arm hArm).eq]
  exact .refl _

/-- An ending that no handler takes is near to what it was. -/
theorem handled {inner inner' : StructureId → Run} {catches : List CatchArm}
    (hArms : ∀ arm ∈ catches, arm.exception.isSome → Alike tail (inner arm.body) (inner' arm.body))
    {ending ending' : Ending} (near : Near tail ending ending') :
    Alike tail (Run.handled world inner catches ending) (Run.handled world inner' catches ending') := by
  cases near with
  | jump hTail => exact .pure (.jump hTail)
  | same =>
      cases ending with
      | throws exception =>
          rw [Run.handled, Run.handled]
          split
          · next arm hFound =>
              refine hArms arm (List.mem_of_find?_eq_some hFound) ?_
              have hCaught := List.find?_some hFound
              cases hException : arm.exception with
              | none => simp [hException] at hCaught
              | some name => rfl
          · exact .refl _
      | _ => exact .refl _

/-- A finally block that runs the same way keeps the ends of the region apart as far as they were. -/
theorem finished {last last' : Option Run} (hLast : last = last') {ending ending' : Ending}
    (near : Near tail ending ending') : Alike tail (Run.finished last ending) (Run.finished last' ending') := by
  subst hLast
  cases near with
  | same => exact .refl _
  | jump hTail =>
      cases last with
      | none => exact .pure (.jump hTail)
      | some block =>
          have same : Alike False block block := .refl block
          refine same.bind_same fun ending => ?_
          cases ending with
          | completes => exact .pure (.jump hTail)
          | _ => exact .refl _

theorem protect {inner inner' : StructureId → Run} {body : StructureId} {catches : List CatchArm}
    (hBody : Alike tail (inner body) (inner' body))
    (hArms : ∀ arm ∈ catches, arm.exception.isSome → Alike tail (inner arm.body) (inner' arm.body))
    (hFinals : ∀ arm ∈ catches, arm.exception = none → Alike False (inner arm.body) (inner' arm.body)) :
    Alike tail (Run.protect world inner body catches) (Run.protect world inner' body catches) := by
  refine hBody.bind fun ending ending' near => (handled hArms near).bind fun ending ending' near => finished ?_ near
  refine Option.map_congr fun arm hArm => ?_
  obtain ⟨hMember, hFinal⟩ := List.mem_filter.mp (List.mem_of_getLast? hArm)
  exact (hFinals arm hMember (Option.isNone_iff_eq_none.mp hFinal)).eq

end Alike

end Running

namespace Structure

/-- The statements inside a statement after which control goes on with what follows it, loops apart. -/
def arms : Structure → List StructureId
  | .conditional _ _ body otherwise _ => body :: otherwise.toList
  | .protect _ body catches _ => body :: (catches.filter fun arm => arm.exception.isSome).map CatchArm.body
  | _ => []

def finals : Structure → List StructureId
  | .protect _ _ catches _ => (catches.filter fun arm => arm.exception.isNone).map CatchArm.body
  | _ => []

def switchArms : Structure → List StructureId
  | .switch _ _ _ cases default _ _ => cases.map SwitchArm.body ++ default.toList
  | _ => []

/-- The statements inside a statement that is no loop. -/
def parts (statement : Structure) : List StructureId := statement.arms ++ (statement.finals ++ statement.switchArms)

end Structure

namespace Running

open Run

/-- A statement runs alike if those inside it and the one that follows it do. -/
theorem alike_runOf {statement : Structure} {tail last : Prop} {world : World} {inner inner' : StructureId → Run}
    (fuel : Nat)
    (hBody : ∀ loop body, statement.loopBody? = some (loop, body) → Alike True (inner body) (inner' body))
    (hArms : ∀ arm ∈ statement.arms, Alike last (inner arm) (inner' arm))
    (hApart : ∀ part ∈ statement.finals ++ statement.switchArms, Alike False (inner part) (inner' part))
    (hFollow : ∀ follow, statement.follow? = some follow → Alike tail (inner follow) (inner' follow))
    (hLast : last → tail ∧ ∀ follow, statement.follow? = some follow → inner' follow = return .completes) :
    Alike tail (runOf world fuel inner statement) (runOf world fuel inner' statement) := by
  cases statement with
  | empty => exact .refl _
  | fragment node follow => exact .act fun _ => hFollow follow rfl
  | conditional node condition body otherwise follow =>
      refine Alike.andThen_last (.test (hArms body List.mem_cons_self) ?_) (hFollow follow rfl)
        fun h => (hLast h).imp_right (· follow rfl)
      cases otherwise with
      | none => exact .refl _
      | some other => exact hArms other (List.mem_cons_of_mem _ (List.mem_singleton_self other))
  | whileLoop node loop condition body follow =>
      exact (Alike.rounds (fun _ _ hNext => .test (.again loop (hBody loop body rfl) hNext) (.refl _)) fuel).andThen
        (hFollow follow rfl)
  | doWhile node loop body condition follow =>
      exact (Alike.rounds (fun _ _ hNext => .again loop (hBody loop body rfl) (.test hNext (.refl _))) fuel).andThen
        (hFollow follow rfl)
  | forLoop node loop initializer condition updates body follow =>
      refine Alike.andThen (.evaluateAll _ (.rounds (fun _ _ hNext => ?_) fuel)) (hFollow follow rfl)
      exact .test (.again loop (hBody loop body rfl) (.evaluateAll updates hNext)) (.refl _)
  | forEach node loop element iterable body follow =>
      refine Alike.andThen (.evaluateAll _ (.rounds (fun _ _ hNext => ?_) fuel)) (hFollow follow rfl)
      exact .test (.again loop (hBody loop body rfl) hNext) (.refl _)
  | forever node loop body follow =>
      exact (Alike.rounds (fun _ _ hNext => .again loop (hBody loop body rfl) hNext) fuel).andThen (hFollow follow rfl)
  | switch node switch selector cases default expression follow =>
      cases expression with
      | true => exact hFollow follow rfl
      | false =>
          refine Alike.andThen (.act fun way => .fallThrough switch fun arm hArm => ?_) (hFollow follow rfl)
          exact hApart arm (List.mem_of_mem_drop hArm)
  | protect node body catches follow =>
      refine Alike.andThen_last (.protect (hArms body List.mem_cons_self) (fun arm hArm hHandler => ?_)
        fun arm hArm hFinal => ?_) (hFollow follow rfl) fun h => (hLast h).imp_right (· follow rfl)
      · exact hArms arm.body (List.mem_cons_of_mem _ (List.mem_map_of_mem (List.mem_filter.mpr ⟨hArm, hHandler⟩)))
      · refine hApart arm.body (List.mem_append_left _ (List.mem_map_of_mem (List.mem_filter.mpr ⟨hArm, ?_⟩)))
        rw [hFinal, Option.isNone_none]
  | breaks id labeled => exact .refl _
  | continues id labeled => exact .refl _

end Running

end Decompiler
