import Decompiler.Proofs.Structure.Building

/-!
Folding makes a forest. Every step of folding names the statements that it asked for, each once, and a node that
became a statement is not folded again.
-/

namespace Decompiler

open Decompiler.Graph

/-! ### Queries -/

namespace BackedgeGroup

/-- Which back-edges belong to one loop is found out by queries. -/
theorem onlyAsks_gather (group : BackedgeGroup) (backedges : List NodeId) : OnlyAsks (group.gather backedges) := by
  induction backedges generalizing group with
  | nil => exact .pure _
  | cons source rest ih =>
      refine OnlyAsks.get.bind fun graph => ?_
      dsimp only
      split
      · exact ih _
      · have hRest : ∀ joins : Bool, OnlyAsks (if joins then
            gather { group with members := group.members ++ [source] } rest else Pure.pure group) := by
          intro joins
          split
          · exact ih _
          · exact .pure _
        split
        · exact (OnlyAsks.pure true).bind hRest
        · exact (onlyAsks_hasDominator _ _).bind hRest

/-- The exit of a loop is searched along edges, with queries on the way. -/
theorem onlyAsks_exitFrom (base : NodeId) (fuel : Nat) (waiting seen : List NodeId) :
    OnlyAsks (exitFrom base fuel waiting seen) := by
  induction fuel generalizing waiting seen with
  | zero => exact .pure _
  | succ fuel ih =>
      cases waiting with
      | nil => exact .pure _
      | cons id waiting =>
          rw [exitFrom]
          split
          · exact ih _ _
          · refine (onlyAsks_hasDominator id base).bind fun dominated => ?_
            split
            · exact .pure _
            · exact OnlyAsks.get.bind fun graph => ih _ _

/-- The groups of back-edges are found by queries. -/
theorem onlyAsks_collect (entrance : NodeId) (backedges : List NodeId) : OnlyAsks (collect entrance backedges) := by
  refine OnlyAsks.get.bind fun graph => (onlyAsks_gather _ _).bind fun group => ?_
  split
  · exact .pure _
  · exact OnlyAsks.get.bind fun graph => (onlyAsks_exitFrom _ _ _ _).bind fun exit => .pure _

end BackedgeGroup

namespace SwitchTable

/-- Whether the default is an arm of its own is found out by queries. -/
theorem onlyAsks_isDefaultArm (table : SwitchTable) : OnlyAsks table.isDefaultArm := by
  refine OnlyAsks.get.bind fun graph => ?_
  split
  · exact .pure _
  · split
    · exact .pure _
    · split
      · exact .pure _
      · refine (onlyAsks_hasDominator _ _).bind fun dominated => ?_
        split
        · exact .pure _
        · split <;> exact .pure _
  · exact .pure _

/-- What follows a switch is searched along edges, with queries on the way. -/
theorem onlyAsks_followFrom (head : NodeId) (fuel : Nat) (waiting seen : List NodeId) :
    OnlyAsks (followFrom head fuel waiting seen) := by
  induction fuel generalizing waiting seen with
  | zero => exact .pure _
  | succ fuel ih =>
      cases waiting with
      | nil => exact .pure _
      | cons id waiting =>
          rw [followFrom]
          split
          · exact ih _ _
          · refine (onlyAsks_dominator id).bind fun dominator => ?_
            split
            · exact .pure _
            · refine (onlyAsks_hasDominator id head).bind fun dominated => ?_
              split
              · exact .pure _
              · exact OnlyAsks.get.bind fun graph => ih _ _

theorem onlyAsks_follow? (table : SwitchTable) : OnlyAsks table.follow? := by
  refine (onlyAsks_isDefaultArm table).bind fun isArm => ?_
  split
  · exact .pure _
  · exact OnlyAsks.get.bind fun graph => onlyAsks_followFrom _ _ _ _

end SwitchTable

namespace Folding

variable {fold : NodeId → FoldingM StructureId} {outer : List BreakableId} {start : Folding → Prop}

/-! ### Steps that build nothing -/

/-- Operands are no statements of the tree. -/
theorem silent_takeCondition (id : NodeId) : Silent (takeCondition id) := by
  refine (Silent.node id).bind fun node => ?_
  split
  · exact (Silent.mapStack id _).bind fun _ => .pure _
  · exact .fail _

theorem silent_conditionTowards (target : NodeId) (test : Condition) : Silent (conditionTowards target test) := by
  rw [conditionTowards]
  split
  · exact (Silent.pure _).bind fun _ => .supply _
  · exact (Silent.supply _).bind fun _ => .supply _

/-- Updates are moved among operands of the graph, to a connector if need be. -/
theorem silent_isolateUpdates (source header : NodeId) (count : Nat) :
    Silent (isolateUpdates source header count) := by
  refine (Silent.node source).bind fun node => ?_
  dsimp only
  split
  · exact .pure _
  · refine (Silent.graph fun graph => SameProgress.createConnector graph source header).bind fun created => ?_
    refine (Silent.node source).bind fun node => ?_
    refine (Silent.changeGraph fun graph => .of_sameProgress ?_).bind fun _ => .pure _
    exact (SameProgress.mapStack graph source _).trans (SameProgress.update _ created _ fun _ => rfl)

/-- An initializer goes from a node to its loop without a new statement. -/
theorem silent_takeInitializer (header : NodeId) (updates : List Operand) :
    Silent (takeInitializer header updates) := by
  refine Silent.currentGraph.bind fun graph => ?_
  split
  · refine (Silent.node _).bind fun node => ?_
    split
    · exact (Silent.mapStack _ _).bind fun _ => .pure _
    · exact .pure _
  · exact .pure _

theorem silent_bodyAndExit? (id : NodeId) (backedges : List NodeId) : Silent (bodyAndExit? id backedges) := by
  refine (Silent.ask (onlyAsks_dominator id)).bind fun dominator => Silent.currentGraph.bind fun graph => ?_
  split
  · dsimp only
    split
    · exact .pure _
    · refine (Silent.ask (onlyAsks_hasDominator _ _)).bind fun dominated => ?_
      split <;> exact .pure _
  · exact .pure _

/-- A connector is a new node and no statement yet. -/
theorem silent_waysAround (id inner outer : NodeId) : Silent (waysAround id inner outer) := by
  refine (Silent.ask (onlyAsks_dominator outer)).bind fun dominator => ?_
  split
  · exact (Silent.graph fun graph => SameProgress.createConnector graph id outer).bind fun _ => .pure _
  · exact .pure _

theorem silent_waysOf (id one other : NodeId) : Silent (waysOf id one other) := by
  refine Silent.currentGraph.bind fun graph => ?_
  split
  · exact silent_waysAround id other one
  · split
    · exact silent_waysAround id one other
    · exact (Silent.ask (onlyAsks_dominatorChildren id)).bind fun _ => .pure _

/-! ### Visits -/

/-- Folding a node that is no statement yet results in a new statement. -/
def Folds (fold : NodeId → FoldingM StructureId) : Prop :=
  ∀ outer id, Builds outer (Fresh id) [] (fold id) (here outer)

theorem silent_recordArrival (source next : NodeId) (arrival : Arrival) :
    Silent (recordArrival source next arrival) := by
  have hArrive (node : Node) (source : Option NodeId) :
      ({ node with visit := node.visit.arrive source } : Node).standing = node.standing := by
    rw [Node.standing, Node.standing, VisitState.isDone_arrive]
  refine .changeGraph fun graph => .update graph next _ fun node => ?_
  cases arrival with
  | detached => rfl
  | _ =>
      dsimp only
      split
      · exact hArrive node _
      · rfl

/-- A jump without a label is clear: what it can mean knows the node. -/
theorem builds_jump (id : BreakableId) (target : NodeId) (isContinue : Bool) :
    Builds outer (fun state => Leads state.breakables id isContinue target) [] (jump id target isContinue)
      (here outer) := by
  intro setting state base sound hOuter leads awaits statement after hRun
  obtain ⟨_, _, hFirst, hRun⟩ := run_bind_ok hRun
  cases hFirst
  dsimp only at hRun
  generalize hLabeled : Option.any (fun active => !(state.graph.node target).breakables.contains active) _ = labeled
    at hRun
  have hPush : ∀ table, Leads table id isContinue target → Clear table outer id isContinue labeled target →
      Builds outer (fun state => state.breakables = table) []
        (push (if isContinue then .continues id labeled else .breaks id labeled)) (here outer) := by
    intro table leads clear
    cases isContinue with
    | true => exact .push_within rfl fun state _ sound hOuter hTable _ =>
        ⟨hOuter ▸ sound.active_lt, hTable ▸ ⟨target, leads, clear⟩⟩
    | false => exact .push_within rfl fun state _ sound hOuter hTable _ =>
        ⟨hOuter ▸ sound.active_lt, hTable ▸ .inr ⟨target, leads, clear⟩⟩
  cases labeled with
  | false =>
      refine hPush _ leads (fun inner hInner => ?_) setting state base sound hOuter rfl awaits _ _ hRun
      rw [Option.any_eq_false] at hLabeled
      have hKnown := hLabeled inner (hOuter ▸ hInner)
      rw [Bool.not_eq_false', List.contains_iff_mem] at hKnown
      exact (sound.known target inner hKnown).2
  | true =>
      obtain ⟨_, _, hFirst, hRun⟩ := run_bind_ok hRun
      cases hFirst
      have grown := Extends.label state.breakables id
      have proceeds : Proceeds state { state with
          breakables := state.breakables.modify id fun breakable => { breakable with labeled := true } } :=
        .of_standing (.refl _) rfl rfl grown
      obtain ⟨proceeds', hAwaits⟩ := hPush _ (leads.grow grown) (Extends.labeled_label leads.1) setting _ base
        (proceeds.sound sound) hOuter rfl (awaits.proceed proceeds rfl) _ _ hRun
      exact ⟨proceeds.trans proceeds', hAwaits⟩

/-- A visit that is a jump leaves the statement of the jump, or nothing. -/
theorem builds_jumpTowards? (source next : NodeId) (id : BreakableId) :
    Builds outer (fun state => id < state.breakables.size) [] (jumpTowards? source next id)
      fun jumped => jumped.toList.map (Awaited.mk outer) := by
  refine .breakable id fun breakable => ?_
  have hStart : ∀ before after : Folding, SameFolding before after →
      id < before.breakables.size ∧ before.breakables.getD id default = breakable →
      id < after.breakables.size ∧ after.breakables.getD id default = breakable := fun before after same hBefore => by
    rwa [same.breakables]
  refine .silently (.ask (onlyAsks_hasDominator source breakable.entrance)) hStart fun within => ?_
  split
  · rename_i hContinue
    simp only [Bool.and_eq_true, beq_iff_eq] at hContinue
    refine ((builds_jump id next true).strengthen fun state _ hStart => ?_).bind fun statement => .pure rfl
    obtain ⟨hId, rfl⟩ := hStart
    exact ⟨hId, hContinue.1⟩
  · split
    · rename_i hBreak
      simp only [Bool.and_eq_true, beq_iff_eq] at hBreak
      refine .silently (.node next) hStart fun node => ?_
      split
      · refine ((builds_jump id next false).strengthen fun state _ hStart => ?_).bind fun statement => .pure rfl
        obtain ⟨hId, rfl⟩ := hStart
        exact ⟨hId, hBreak.1.2⟩
      · have hEmpty : Builds outer
            (fun state => id < state.breakables.size ∧ state.breakables.getD id default = breakable) []
            (do let statement ← pure Structure.emptyId; return some statement : FoldingM (Option StructureId))
            fun jumped => jumped.toList.map (Awaited.mk outer) := Builds.empty.bind fun statement => .pure rfl
        exact hEmpty
    · exact .pure rfl

/-- A node that is ready has not become a statement. -/
theorem fresh_of_isReady {state : Folding} {id : NodeId} (sound : state.Sound)
    (hReady : isReady (state.graph.node id)) : state.Fresh id := by
  by_contra hStatement
  have hDone := sound.settled id (Option.isSome_iff_ne_none.mpr hStatement)
  simp [isReady, hDone] at hReady

/-- A step that needs a node that is no statement yet may be taken when the node is ready. -/
theorem builds_whenReady {id : NodeId} {step : FoldingM StructureId}
    (hStep : Builds outer (Fresh id) [] step (here outer)) :
    Builds outer start [] (do if !isReady (← node id) then return Structure.emptyId else step) (here outer) := by
  refine .node id fun node => ?_
  split
  · exact .empty
  · rename_i hReady
    refine hStep.strengthen fun state sound hNode => fresh_of_isReady sound ?_
    rw [hNode.2]
    simpa using hReady

/-- The part of a visit after the question whether it is a jump. -/
theorem builds_unlessJump {next : NodeId} {choose : Option NodeId → FoldingM StructureId}
    (hChoose : ∀ dominator, Builds outer (Fresh next) [] (choose dominator) (here outer)) (arrival : Arrival)
    (jumped : Option StructureId) :
    Builds outer Always (jumped.toList.map (Awaited.mk outer)) (do
      match jumped with
      | some statement => return statement
      | none =>
        if arrival != .detached && (← get).regionExits.contains next then return Structure.emptyId
        if !isReady (← node next) then return Structure.emptyId
        choose (← Graph.dominator next)) (here outer) := by
  split
  · exact .pure rfl
  · refine (Builds.of_silent .get).bind fun state => ?_
    split
    · exact .empty
    · exact builds_whenReady (.silently (.ask (onlyAsks_dominator next)) (fun _ _ same => same.fresh) hChoose)

/-- What a visit leaves is a jump, the statement of the node, or nothing. -/
theorem builds_visit (folds : Folds fold) (source : NodeId) (next : Option NodeId) (arrival : Arrival) :
    Builds outer start [] (visit fold source next arrival) (here outer) := by
  cases next with
  | none => exact .empty
  | some next =>
      refine (Builds.of_silent (silent_recordArrival source next arrival)).bind fun _ => ?_
      refine .node next fun node => ?_
      have hFold : ∀ chosen : Bool,
          Builds outer (Fresh next) [] (if chosen then fold next else return Structure.emptyId) (here outer) := by
        intro chosen
        split
        · exact folds outer next
        · exact .empty
      dsimp only
      split
      · rename_i id hLatest
        refine ((builds_jumpTowards? source next id).strengthen fun state sound hNode => ?_).bind
          (builds_unlessJump (fun dominator => ?_) arrival)
        · exact (sound.known next id (hNode.2 ▸ List.mem_of_getLast? hLatest)).1
        exact .silently (.breakable id) (fun _ _ same => same.fresh) fun breakable => hFold _
      · refine (Builds.pure ?_).bind (builds_unlessJump (fun dominator => ?_) arrival)
        · rfl
        · exact .silently (.pure false) (fun _ _ same => same.fresh) fun exits => hFold _

/-! ### Branches -/

/-- A branch names the statements of its ways and of what follows it. -/
theorem builds_foldBranch (folds : Folds fold) (id one other : NodeId) :
    Builds outer start [] (foldBranch fold id one other) (here outer) := by
  refine (Builds.of_silent (silent_takeCondition id)).bind fun test => ?_
  refine (Builds.of_silent (silent_waysOf id one other)).bind fun ways => ?_
  obtain ⟨inner, other, follow⟩ := ways
  refine (Builds.of_silent (silent_conditionTowards inner test)).bind fun test => ?_
  refine (builds_visit folds id (some inner) .edge).bind fun body => ?_
  extract_lets finish
  have hFinish : ∀ otherwise : Option StructureId, Builds outer Always
      (here outer body ++ otherwise.toList.map (Awaited.mk outer)) (finish otherwise) (here outer) := by
    intro otherwise
    dsimp only [finish]
    split
    · exact (builds_visit folds id _ _).andThen fun follow => .push rfl fun _ => trivial
    · exact Builds.empty.andThen fun follow => .push rfl fun _ => trivial
  cases other with
  | some other =>
      refine ((builds_visit folds id (some other) .edge).map fun statement => ?_).andThen hFinish
      rfl
  | none =>
      refine Builds.andThen (.pure ?_) hFinish
      rfl

/-! ### Switches -/

/-- Each arm is built inside the switch, and all of them wait for it to name them. -/
theorem builds_foldArms (folds : Folds fold) (head : NodeId) (id : BreakableId) (table : SwitchTable)
    (follow : Option NodeId) (hasDefault : Bool) :
    Builds (id :: outer) start [] (foldArms fold head id table follow hasDefault) fun arms =>
      (arms.1.map SwitchArm.body ++ arms.2.toList).map (Awaited.mk (id :: outer)) := by
  refine (Builds.of_silent .currentGraph).bind fun graph => ?_
  have hArm : ∀ arm : NodeId × List Int32, Builds (id :: outer) Always [] (do
      if some arm.1 = follow then
        recordArrival head arm.1 .edge
        return { keys := arm.2, body := ← push (.breaks id false) : SwitchArm }
      else return { keys := arm.2, body := ← visit fold head (some arm.1) .edge : SwitchArm })
      fun arm => here (id :: outer) arm.body := by
    intro arm
    split
    · refine (Builds.of_silent (silent_recordArrival _ _ _)).bind fun _ =>
        (Builds.push ?_ fun table => ?_).bind fun body => .pure rfl
      · rfl
      · exact .inl ⟨rfl, rfl⟩
    · exact (builds_visit folds _ _ _).bind fun body => .pure rfl
  refine (Builds.mapM _ hArm).bind fun arms => ?_
  dsimp only
  split
  · have hDefault : Builds (id :: outer) Always [] (some <$> visit fold head (some table.default) .edge)
        fun default => default.toList.map (Awaited.mk (id :: outer)) :=
      (builds_visit folds _ _ _).map fun default => rfl
    exact hDefault.andThen fun default => .pure List.map_append
  · refine Builds.andThen (.pure ?_) fun default => .pure List.map_append
    rfl

/-- A switch names its arms and the statement that follows it. -/
theorem builds_foldSwitch (folds : Folds fold) (head : NodeId) (table : SwitchTable) :
    Builds outer start [] (foldSwitch fold head table) (here outer) := by
  refine (Builds.of_silent (.node head)).bind fun node => ?_
  split
  · exact .fail _
  · rename_i selector _
    refine (Builds.of_silent (.mapStack head _)).bind fun _ => ?_
    refine (Builds.of_silent (.ask (SwitchTable.onlyAsks_follow? table))).bind fun follow => ?_
    refine (Builds.of_silent (.ask (SwitchTable.onlyAsks_isDefaultArm table))).bind fun hasDefault => ?_
    refine .opens fun breakable => ?_
    refine (Builds.inside breakable (builds_foldArms folds head breakable table follow hasDefault)).bind fun arms => ?_
    refine (builds_visit folds head follow .edge).andThen fun followed => ?_
    refine (Builds.push ?_ ?_).bind fun statement => (Builds.of_silent (.node head)).bind fun node => ?_
    · rfl
    · exact fun _ => trivial
    · split
      · exact .pure rfl
      · exact .fragment head outer statement

/-! ### Loops -/

/-- A loop that is tested behind names its body, and the statement after the loop follows. -/
theorem builds_foldDoWhile (folds : Folds fold) (id first source : NodeId) :
    Builds outer start [] (foldDoWhile fold id first source) (here outer) := by
  refine (Builds.of_silent (.node source)).bind fun node => ?_
  refine .opens fun breakable => ?_
  refine (Builds.inside breakable (builds_visit folds id (some first) .edge)).keeping fun body => ?_
  refine (Builds.fragment id (breakable :: outer) body).keeping fun inner => ?_
  refine (Builds.of_silent (silent_takeCondition source)).keeping fun test => ?_
  refine (Builds.of_silent (silent_conditionTowards id test)).keeping fun test => ?_
  exact Builds.finish.bind fun _ => (builds_visit folds source _ .edge).andThen fun follow => .push rfl fun _ => trivial

/-- An endless loop names its body. -/
theorem builds_foldForever (folds : Folds fold) {inner : FoldingM StructureId}
    (hInner : ∀ outer, Builds outer Always [] inner (here outer)) (id : NodeId) (exit : Option NodeId) :
    Builds outer start [] (foldForever fold inner id exit) (here outer) := by
  refine .opens fun breakable => ?_
  refine (Builds.inside breakable (hInner _)).bind fun body => ?_
  exact (builds_visit folds id exit .detached).andThen fun follow => .push rfl fun _ => trivial

/-- If there is a loop over elements, it names its body and what follows. -/
theorem builds_forEach? (folds : Folds fold) (header body exit source : NodeId) :
    Builds outer start [] (forEach? fold header body exit source) fun loop => loop.toList.map (Awaited.mk outer) := by
  refine (Builds.of_silent .read).bind fun setting => ?_
  split
  · exact .pure rfl
  · refine (Builds.of_silent .currentGraph).bind fun graph => ?_
    split
    · refine (Builds.of_silent .read).bind fun setting => ?_
      split
      · exact .pure rfl
      · rename_i iteration _
        refine (Builds.of_silent (.mapStack body _)).bind fun _ => ?_
        refine (Builds.of_silent (.mapStack _ _)).bind fun _ => ?_
        have hLoop : ∀ checkpoint : Option NodeId, Builds outer Always [] (do
            discard (takeCondition header)
            let breakable ← openBreakable .loop header body (some exit) checkpoint
            let inner ← inside breakable (visit fold header (some body) .edge)
            let follow ← visit fold header (some exit) .edge
            return some (← push (.forEach header breakable iteration.element iteration.iterable inner follow)))
            fun loop => loop.toList.map (Awaited.mk outer) := by
          intro checkpoint
          refine (Builds.of_silent (.map (silent_takeCondition header))).bind fun _ => ?_
          refine .opens fun breakable => ?_
          refine (Builds.inside breakable (builds_visit folds header (some body) .edge)).bind fun inner => ?_
          refine (builds_visit folds header (some exit) .edge).andThen fun follow => ?_
          refine (Builds.push ?_ ?_).bind fun statement => .pure rfl
          · rfl
          · exact fun _ => trivial
        dsimp only
        split
        · refine (Builds.of_silent (silent_isolateUpdates source header 1)).bind fun checkpoint => ?_
          refine (Builds.of_silent (.mapStack checkpoint _)).bind fun _ => ?_
          exact (Builds.of_silent (.pure _)).bind hLoop
        · exact (Builds.of_silent (.pure _)).bind hLoop
    · exact .pure rfl

/-- A loop that is tested in front names its body and what follows. -/
theorem builds_foldWhile (folds : Folds fold) {inner : FoldingM StructureId}
    (hInner : ∀ outer, Builds outer Always [] inner (here outer)) (id : NodeId) (backedges : List NodeId) :
    Builds outer start [] (foldWhile fold inner id backedges) (here outer) := by
  refine (Builds.of_silent (silent_bodyAndExit? id backedges)).bind fun ways => ?_
  split
  · exact builds_foldForever folds hInner id none
  · rename_i body exit
    refine (builds_forEach? folds id body exit _).bind fun iteration => ?_
    split
    · exact .pure rfl
    · refine (Builds.of_silent (silent_takeCondition id)).bind fun test => ?_
      refine (Builds.of_silent (silent_conditionTowards body test)).bind fun test => ?_
      refine .opens fun breakable => ?_
      refine (Builds.inside breakable (builds_visit folds id (some body) .edge)).bind fun inner => ?_
      exact (builds_visit folds id (some exit) .edge).andThen fun follow => .push rfl fun _ => trivial

/-- A loop with updates names its body and what follows. -/
theorem builds_foldFor (folds : Folds fold) {inner : FoldingM StructureId}
    (hInner : ∀ outer, Builds outer Always [] inner (here outer)) (id source : NodeId) :
    Builds outer start [] (foldFor fold inner id source) (here outer) := by
  refine (Builds.of_silent (silent_bodyAndExit? id [source])).bind fun ways => ?_
  split
  · exact builds_foldForever folds hInner id none
  · rename_i body exit
    refine (builds_forEach? folds id body exit source).bind fun iteration => ?_
    split
    · exact .pure rfl
    · refine (Builds.of_silent .currentGraph).bind fun graph => ?_
      dsimp only
      split
      · exact builds_foldWhile folds hInner id [source]
      · refine (Builds.of_silent (silent_isolateUpdates source id _)).bind fun checkpoint => ?_
        refine (Builds.of_silent (.node checkpoint)).bind fun node => ?_
        refine (Builds.of_silent (.mapStack checkpoint _)).bind fun _ => ?_
        refine (Builds.of_silent (silent_takeInitializer id _)).bind fun initializer => ?_
        refine (Builds.of_silent (silent_takeCondition id)).bind fun test => ?_
        refine (Builds.of_silent (silent_conditionTowards body test)).bind fun test => ?_
        refine .opens fun breakable => ?_
        refine (Builds.inside breakable (builds_visit folds id (some body) .edge)).bind fun inner => ?_
        exact (builds_visit folds id (some exit) .edge).andThen fun follow => .push rfl fun _ => trivial

/-- A node is folded by its successors; each loop that is found around it takes a back-edge away. -/
theorem builds_classifyWithin (folds : Folds fold) (id : NodeId) (fuel : Nat) (backedges : List NodeId) :
    Builds outer start [] (classifyWithin fold id fuel backedges) (here outer) := by
  induction fuel generalizing outer start backedges with
  | zero => exact Builds.empty.bind (.fragment id outer)
  | succ fuel ih =>
      have hCollect : ∀ sources, Builds outer Always [] (BackedgeGroup.collect id sources) fun _ => [] :=
        fun sources => .of_silent (.ask (BackedgeGroup.onlyAsks_collect id sources))
      rw [classifyWithin]
      refine (Builds.of_silent (.node id)).bind fun node => ?_
      dsimp only
      split
      · exact Builds.empty.bind (.fragment id outer)
      · exact (builds_visit folds id _ _).bind (.fragment id outer)
      · refine (hCollect _).bind fun group => (Builds.of_silent .currentGraph).bind fun graph => ?_
        split
        · exact builds_foldDoWhile folds id _ _
        · exact builds_foldForever folds (fun _ => ih _) id _
      · exact (hCollect _).bind fun group => builds_foldForever folds (fun _ => ih _) id _
      · exact builds_foldBranch folds id _ _
      · refine (Builds.of_silent .currentGraph).bind fun graph => ?_
        split
        · exact builds_foldFor folds (fun _ => ih _) id _
        · exact builds_foldWhile folds (fun _ => ih _) id _
      · exact builds_foldWhile folds (fun _ => ih _) id _
      · exact .fail _

theorem builds_classify (folds : Folds fold) (id : NodeId) : Builds outer start [] (classify fold id) (here outer) :=
  (Builds.of_silent (.node id)).bind fun _ => builds_classifyWithin folds id _ _

/-! ### Protected regions -/

/-- A node is folded with its switch or by its successors. -/
theorem builds_foldBody (folds : Folds fold) (id : NodeId) : Builds outer start [] (foldBody fold id) (here outer) := by
  refine (Builds.of_silent (.node id)).bind fun node => (Builds.of_silent .get).bind fun state => ?_
  split
  · exact builds_foldSwitch folds id _
  · exact builds_classify folds id

/-- A region takes the statement before it for its body and names the handlers and what follows. -/
theorem builds_foldRegion (folds : Folds fold) (id : NodeId) (body : StructureId) (region : Region) :
    Builds outer Always (here outer body) (foldRegion fold id body region) (here outer) := by
  have hArm : ∀ handler : Handler, Builds outer Always [] (do
      let arm ← visit fold id (some handler.node) .additional
      return { exception := handler.exception, caught? := handler.caught?, body := arm : CatchArm })
      fun arm => here outer arm.body := fun handler => (builds_visit folds id _ _).bind fun arm => .pure rfl
  refine (Builds.mapM region.handlers hArm).andThen fun catches => ?_
  dsimp only
  split
  · exact Builds.empty.andThen fun follow => .push rfl fun _ => trivial
  · rename_i exit _
    refine (Builds.of_silent (.change ?_)).bind fun _ => (Builds.of_silent .get).bind fun state => ?_
    · exact fun state => ⟨.refl _, rfl⟩
    · refine .node exit fun node => ?_
      split
      · exact (Builds.empty.frame _).bind fun follow => .push rfl fun _ => trivial
      · rename_i hReady
        refine (((folds outer exit).frame _).strengthen fun state sound hNode => ?_).bind fun follow =>
          .push rfl fun _ => trivial
        refine fresh_of_isReady sound ?_
        rw [hNode.2]
        rw [Bool.not_eq_true, Bool.or_eq_false_iff, Bool.not_eq_false'] at hReady
        exact hReady.2

/-- Each region encloses what the regions inside of it built. -/
theorem builds_foldRegions (folds : Folds fold) (id : NodeId) (regions : List RegionId) :
    Builds outer start [] (foldRegions fold id regions) (here outer) := by
  refine Builds.getSet (fun state => ⟨.update _ _ _ fun _ => rfl, rfl⟩) fun state => ?_
  exact (builds_foldBody folds id).bind fun body => .foldlM _ (builds_foldRegion folds id) body

/-! ### Nodes -/

/-- A step of folding whose statement is noted at a node. -/
def noting (id : NodeId) (body : FoldingM StructureId) : FoldingM StructureId := do
  let statement ← body
  changeGraph (·.note id statement)
  return statement

/-- The rest of folding a node that was entered. -/
def foldEntered (fold : NodeId → FoldingM StructureId) (id : NodeId) : FoldingM StructureId := do
  let statement ← match (← node id).regions with
    | [] => foldBody fold id
    | regions => foldRegions fold id regions
  changeGraph (·.update id fun node => { node with statement := some statement })
  return statement

/-- The node was visited to the end, or there is no such node. -/
def Entered (id : NodeId) (graph : Graph) : Prop :=
  (graph.node id).visit.isDone ∨ graph.nodes.size ≤ id

/-- A node of the graph is visited to the end when it is finished. -/
theorem entered_finish (graph : Graph) (id : NodeId) : Entered id (graph.finish id) := by
  rcases Nat.lt_or_ge id graph.nodes.size with hInside | hOutside
  · exact .inl (done_finish_self hInside)
  · exact .inr ((size_update _ _ _).trans_le hOutside)

/-- The statement of a node is noted when the node was visited to the end. -/
theorem builds_noted {body : FoldingM StructureId} (hBody : Builds outer Always [] body (here outer)) (id : NodeId) :
    Builds outer (fun state => (state.graph.node id).visit.isDone) [] (noting id body) (here outer) := by
  intro setting state base sound hOuter hDone awaits _ after hRun
  obtain ⟨statement, middle, hFirst, hRun⟩ := run_bind_ok hRun
  obtain ⟨proceeds, hAwaits⟩ := hBody setting state base sound hOuter trivial awaits statement middle hFirst
  obtain ⟨hGet, -, -, -, -⟩ := hAwaits.enclosed ⟨outer, statement⟩ (List.mem_singleton_self _)
  have noted : Proceeds middle { middle with graph := middle.graph.note id statement } :=
    .note (proceeds.done id hDone) (Array.getElem?_eq_some_iff.mp hGet).1
  cases hRun
  exact ⟨proceeds.trans noted, hAwaits.proceed noted rfl⟩

/-- Folding what is no node makes an empty fragment. -/
theorem run_foldBody_outside {state : Folding} {id : NodeId} (hOutside : state.graph.nodes.size ≤ id)
    (setting : Setting) :
    (foldBody fold id setting).run.run state = (.ok state.structures.size,
      { state with structures := state.structures.push (.fragment id Structure.emptyId) }) := by
  have hBlank : state.graph.node id = {} := node_of_size_le hOutside
  have hFragment : (fragment id Structure.emptyId setting).run.run state = (.ok state.structures.size,
      { state with structures := state.structures.push (.fragment id Structure.emptyId) }) := rfl
  rw [foldBody, run_node_bind, hBlank, run_get_bind]
  dsimp only [Option.bind]
  rw [classify, run_node_bind, hBlank, classifyWithin, run_node_bind, hBlank]
  exact hFragment

/-- The statement of what is no node is noted nowhere. -/
theorem builds_outside (id : NodeId) :
    Builds outer (fun state => state.graph.nodes.size ≤ id) [] (noting id (foldBody fold id)) (here outer) := by
  have hFragment : Builds outer Always [] (do let follow ← pure Structure.emptyId; fragment id follow) (here outer) :=
    Builds.empty.bind (.fragment id outer)
  intro setting state base sound hOuter hOutside awaits _ after hRun
  obtain ⟨statement, middle, hFirst, hRun⟩ := run_bind_ok hRun
  rw [run_foldBody_outside hOutside] at hFirst
  obtain ⟨proceeds, hAwaits⟩ := hFragment setting state base sound hOuter trivial awaits statement middle hFirst
  have hNodes : middle.graph = state.graph := by
    cases hFirst
    rfl
  have noted : Proceeds middle { middle with graph := middle.graph.note id statement } := by
    refine .of_standing (fun other => ?_) rfl rfl (.refl _)
    have hOther : ¬ (id = other ∧ other < middle.graph.nodes.size) := fun ⟨hSame, hInside⟩ =>
      Nat.not_lt.mpr hOutside (hNodes ▸ hSame ▸ hInside)
    exact congrArg Node.standing ((node_update _ _ _ _).trans (if_neg hOther))
  cases hRun
  exact ⟨proceeds.trans noted, hAwaits.proceed noted rfl⟩

/-- The statement of a node is noted at it, so no later visit builds another one. -/
theorem builds_entered (folds : Folds fold) (id : NodeId) :
    Builds outer (fun state => Entered id state.graph) [] (foldEntered fold id) (here outer) := by
  refine .node id fun node => ?_
  dsimp only
  split
  · refine (Builds.cases_on ?_ (builds_outside id)).strengthen fun _ _ hStart => hStart.1
    exact builds_noted (builds_foldBody folds id) id
  · rename_i regions hRegions
    refine (builds_noted (builds_foldRegions folds id _) id).strengthen fun state _ hStart => ?_
    -- A node with regions is one of the graph.
    refine hStart.1.resolve_right fun hOutside => hRegions ?_
    rw [← hStart.2, node_of_size_le hOutside]

/-- A node is handled when its statement is noted. -/
theorem handles_noted (body : FoldingM StructureId) (id : NodeId) : Handles id (noting id body) := by
  intro setting state _ after hRun hDone
  obtain ⟨statement, middle, -, hRun⟩ := run_bind_ok hRun
  cases hRun
  have hVisit : (middle.graph.node id).visit.isDone :=
    (congrArg VisitState.isDone (field_note Node.visit (fun _ _ => rfl) middle.graph id _ id)).symm.trans hDone
  rcases Nat.lt_or_ge id middle.graph.nodes.size with hInside | hOutside
  · exact .inl (congrArg (fun node : Node => node.statement.isSome) (node_update_self hInside _))
  · rw [node_of_size_le hOutside] at hVisit
    cases hVisit

/-- A node that is folded is handled when it is done. -/
theorem handles_entered (id : NodeId) : Handles id (foldEntered fold id) := by
  refine .after _ fun node => ?_
  dsimp only
  split
  · exact handles_noted _ id
  · exact handles_noted _ id

/-- Folding one node builds a statement if folding its successors does. -/
theorem folds_foldNode (folds : Folds fold) : Folds (foldNode fold) := by
  intro outer id
  refine .node id fun node => ?_
  split
  · rename_i statement hStatement
    refine fun setting state base sound hOuter hStart => ?_
    have hNone : node.statement = none := hStart.2 ▸ hStart.1
    rw [hStatement] at hNone
    cases hNone
  · refine .enter (fun graph => entered_finish graph id) (.after _ fun setting => ?_) ?_
    · split
      · exact .after _ fun _ => handles_entered id
      · exact handles_entered id
    refine .skip (fun _ _ _ _ hRun => ?_) (fun _ _ hEntered => hEntered) fun setting => ?_
    · cases hRun
      exact ⟨_, rfl⟩
    split
    · refine .skip (fun _ _ _ _ hRun => ?_) (fun _ _ hEntered => hEntered) fun _ => builds_entered folds id
      cases hRun
      exact ⟨_, rfl⟩
    · exact builds_entered folds id

/-- Folding builds a statement from nothing, whatever the bound on its depth. -/
theorem folds_foldWithin (depth : Nat) : Folds (foldWithin depth) := by
  induction depth with
  | zero => exact fun _ _ => .empty
  | succ depth ih => exact folds_foldNode ih

/-! ### Whole graphs -/

section Omitting

variable {holds : Array Structure → Prop} {structures : Array Structure}
  (hDrop : ∀ structures place, (structures.getD place .empty).children = [] → holds structures →
    holds (structures.setIfInBounds place .empty))

include hDrop

theorem holds_omitContinue (id : BreakableId) (fuel : Nat) (start : StructureId) (hHolds : holds structures) :
    holds (omitContinue id fuel start structures) := by
  induction fuel generalizing start structures with
  | zero => exact hHolds
  | succ fuel ih =>
      have hArms : ∀ arms : List StructureId, ∀ structures, holds structures →
          holds (arms.foldl (fun structures arm => omitContinue id fuel arm structures) structures) := by
        intro arms
        induction arms with
        | nil => exact fun _ hHolds => hHolds
        | cons arm rest ihArms => exact fun _ hHolds => ihArms _ (ih arm hHolds)
      rw [omitContinue]
      dsimp only
      split
      · rename_i hJump
        split
        · exact hDrop structures start (by rw [hJump]; rfl) hHolds
        · exact hHolds
      · split
        · exact hArms _ _ hHolds
        · exact ih _ hHolds
      · split
        · exact hArms _ _ hHolds
        · exact ih _ hHolds
      · split
        · exact ih _ hHolds
        · exact hHolds

/-- What outlasts the loss of a statement that names none outlasts that of the jumps at the ends of loops. -/
theorem holds_omitContinues (hHolds : holds structures) : holds (omitContinues structures) := by
  rw [omitContinues]
  generalize List.range structures.size = loops
  induction loops generalizing structures with
  | nil => exact hHolds
  | cons loop rest ih =>
      refine ih ?_
      dsimp only
      split
      · exact holds_omitContinue hDrop _ _ _ hHolds
      · exact hHolds

end Omitting

/-- Before folding no node is a statement, or knows of a construct. -/
theorem sound_start {body : MethodBody} (hStart : ∀ id, (body.graph.node id).progress = (none, .unvisited, [])) :
    Sound { toMethodBody := body } where
  settled id hStatement := by
    have hNone : (body.graph.node id).statement = none := congrArg (·.1) (hStart id)
    simp [hNone] at hStatement
  placed place id hPlaced := by
    have hNone : (body.graph.node place).statement = none := congrArg (·.1) (hStart place)
    cases hNone.symm.trans hPlaced
  empty := rfl
  active_lt _ hId := absurd hId List.not_mem_nil
  known place id hKnown := by
    have hNone : (body.graph.node place).breakables = [] := congrArg (·.2.2) (hStart place)
    simp [hNone] at hKnown

/-- The nodes of the graph were folded into the tree. All of its statements are named, each once, and fit into the
constructs around them. A node that control can reach became a statement of the tree, unless it has no operands left or
a loop is tested at it. -/
structure Into (graph : Graph) (tree : StructureTree) : Prop where
  forest : IsForest tree.structures [tree.root]
  complete : Complete tree.structures [tree.root]
  enclosed : Enclosed tree.structures tree.breakables [] tree.root
  placed : ∀ node id, (graph.node node).statement = some id → id < tree.structures.size
  handled : ∀ node ∈ graph.reachable, (graph.node node).stack ≠ [] → (graph.node node).statement.isSome ∨
    ∃ construct < tree.breakables.size, (tree.breakable construct).checkpoint = some node

/-- Statements are emptied in their place. -/
theorem size_omitContinues (structures : Array Structure) : (omitContinues structures).size = structures.size :=
  holds_omitContinues (fun others _ _ (hSize : others.size = structures.size) =>
    Array.size_setIfInBounds.trans hSize) rfl

/-- What a run leaves when it succeeds: the graph as its entry was folded, with no node lost. -/
theorem run_foldGraph_ok {setting : Setting} {state after : Folding} {tree : StructureTree}
    (hRun : (foldGraph setting).run.run state = (.ok tree, after)) : ∃ depth entry folded,
      (foldWithin depth entry setting).run.run state = (.ok tree.root, folded) ∧
      tree.structures = omitContinues folded.structures ∧ tree.breakables = folded.breakables ∧
      after.graph = folded.graph ∧ folded.graph.unstructured = [] := by
  obtain ⟨graph, _, hFirst, hRun⟩ := run_bind_ok hRun
  cases hFirst
  cases hEntry : state.graph.entry? with
  | none =>
      rw [hEntry] at hRun
      cases hRun
  | some entry =>
      rw [hEntry] at hRun
      obtain ⟨root, folded, hFold, hRun⟩ := run_bind_ok hRun
      obtain ⟨_, dropped, hDrop, hRun⟩ := run_bind_ok hRun
      cases hDrop
      obtain ⟨_, _, hGet, hRun⟩ := run_bind_ok hRun
      cases hGet
      dsimp only at hRun
      cases hLost : folded.graph.unstructured with
      | nil =>
          rw [hLost] at hRun
          cases hRun
          exact ⟨_, entry, folded, hFold, rfl, rfl, rfl, hLost⟩
      | cons id rest =>
          rw [hLost] at hRun
          cases hRun

/-- A run that succeeds leaves a tree whose statements are each named once. -/
theorem foldGraph_into {setting : Setting} {body : MethodBody} {after : Folding} {tree : StructureTree}
    (hStart : ∀ id, (body.graph.node id).progress = (none, .unvisited, []))
    (hRun : (foldGraph setting).run.run { toMethodBody := body } = (.ok tree, after)) : Into after.graph tree := by
  obtain ⟨depth, entry, folded, hFold, hArena, hTable, hGraph, hLost⟩ := run_foldGraph_ok hRun
  have sound := sound_start hStart
  have fresh : Fresh entry { toMethodBody := body } := congrArg Prod.fst (hStart entry)
  obtain ⟨proceeds, hAwaits⟩ := folds_foldWithin depth [] entry setting _ #[.empty] sound rfl fresh
    ⟨.refl _, by simp⟩ tree.root folded hFold
  refine ⟨?_, ?_, ?_, fun node id hPlaced => ?_, fun node hNode hStack => ?_⟩
  · rw [hArena]
    exact holds_omitContinues (fun structures place _ (forest : IsForest structures [tree.root]) => forest.drop place)
      hAwaits.grows.isForest
  · rw [hArena]
    exact holds_omitContinues (fun structures _ hPlace (complete : Complete structures [tree.root]) =>
      complete.drop hPlace) hAwaits.grows.complete
  · rw [hArena, hTable]
    exact holds_omitContinues
      (fun structures place _ (enclosed : Enclosed structures folded.breakables [] tree.root) => enclosed.drop place)
      (hAwaits.enclosed ⟨[], tree.root⟩ (List.mem_singleton_self _))
  · rw [hGraph] at hPlaced
    rw [hArena, size_omitContinues]
    exact (proceeds.sound sound).placed node id hPlaced
  · rw [hGraph] at hNode hStack ⊢
    have hDone : (folded.graph.node node).visit.isDone := by
      simpa [hStack] using List.filter_eq_nil_iff.mp hLost node hNode
    have hBefore : (body.graph.node node).visit = .unvisited := congrArg (·.2.1) (hStart node)
    rcases proceeds.finished node hDone with hStarted | hStatement | ⟨construct, hConstruct, hTested⟩
    · rw [show _ = _ from hBefore] at hStarted
      cases hStarted
    · exact .inl hStatement
    · refine .inr ⟨construct, hTable ▸ hConstruct, ?_⟩
      rw [StructureTree.breakable, hTable, hTested]

end Folding

end Decompiler
