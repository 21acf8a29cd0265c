import Decompiler.TypeCell
import Mathlib.Algebra.BigOperators.Fin
import Mathlib.Data.List.Basic

/-!
How far a type spreads. What a cell is told reaches the cells that listen to it, directly or through other cells, as
long as all cells on the way are open; a fixed cell keeps its type and passes nothing on. Every cell is told once, so
cycles of listeners do no harm, and telling comes to an end.
-/

namespace Decompiler.TypeCells

variable {types after : TypeCells} {start id other : CellId} {cell : TypeCell} {type : JvmType} {fix : Bool}

/-! ### Cells and their listeners -/

@[simp] theorem size_update (types : TypeCells) (id : CellId) (change : TypeCell → TypeCell) :
    (types.update id change).cells.size = types.cells.size := by
  simp [update]

theorem cell?_update (types : TypeCells) (id other : CellId) (change : TypeCell → TypeCell) :
    (types.update id change).cell? other = if id = other then (types.cell? other).map change else types.cell? other := by
  simp [cell?, update, Array.getElem?_modify]

theorem cell?_add_of_lt {type : JvmType} {fixed : Bool} (hId : id < types.cells.size) :
    (types.add type fixed).2.cell? id = types.cell? id := by
  simp [cell?, add, Array.getElem?_push, Nat.ne_of_lt hId]

theorem lt_of_cell? (hCell : types.cell? id = some cell) : id < types.cells.size :=
  (Array.getElem?_eq_some_iff.mp hCell).1

/-- Every cell has a holder. -/
def KeptAlive (types : TypeCells) : Prop := ∀ cell ∈ types.cells, cell.handles ≠ 0

instance (types : TypeCells) : Decidable types.KeptAlive := inferInstanceAs (Decidable (∀ cell ∈ types.cells, _))

/-- The cell exists, and its type is a guess. -/
def IsOpen (types : TypeCells) (id : CellId) : Prop := ∃ cell, types.cell? id = some cell ∧ cell.fixed = false

/-- The second cell listens to the first. -/
def Listens (types : TypeCells) (id other : CellId) : Prop := ∃ cell, types.cell? id = some cell ∧ other ∈ cell.listeners

/-- The cell is reached from the start along listeners, and every cell on the way is open, both ends included. -/
inductive Reaches (types : TypeCells) (start : CellId) : CellId → Prop
  | start (isOpen : types.IsOpen start) : Reaches types start start
  | step {id other : CellId} (prior : Reaches types start id) (listens : types.Listens id other)
      (isOpen : types.IsOpen other) : Reaches types start other

theorem Reaches.isOpen (reaches : types.Reaches start id) : types.IsOpen id := by
  cases reaches with
  | start isOpen => exact isOpen
  | step _ _ isOpen => exact isOpen

/-! ### Telling without a bound -/

/-- The cell after it was told. -/
def told (type : JvmType) (fix : Bool) (cell : TypeCell) : TypeCell := { cell with type, fixed := fix }

/-- Tells the type to the pending cells until none is left, with no bound on the number of steps. Either a cell is
passed over, or it is fixed and stays as it is, or it is told and its listeners are next. -/
inductive Spreads (type : JvmType) (fix : Bool) : List CellId → List CellId → TypeCells → TypeCells → Prop
  | done (seen : List CellId) (types : TypeCells) : Spreads type fix [] seen types types
  | pass {id : CellId} {pending seen : List CellId} {types after : TypeCells}
      (hPassed : id ∈ seen ∨ ∀ cell, types.cell? id = some cell → cell.handles = 0)
      (rest : Spreads type fix pending seen types after) : Spreads type fix (id :: pending) seen types after
  | keep {id : CellId} {cell : TypeCell} {pending seen : List CellId} {types after : TypeCells}
      (hNew : id ∉ seen) (hCell : types.cell? id = some cell) (hHeld : cell.handles ≠ 0) (hFixed : cell.fixed = true)
      (rest : Spreads type fix pending (id :: seen) types after) : Spreads type fix (id :: pending) seen types after
  | tell {id : CellId} {cell : TypeCell} {pending seen : List CellId} {types after : TypeCells}
      (hNew : id ∉ seen) (hCell : types.cell? id = some cell) (hHeld : cell.handles ≠ 0) (hOpen : cell.fixed = false)
      (rest : Spreads type fix (cell.listeners ++ pending) (id :: seen) (types.update id (told type fix)) after) :
      Spreads type fix (id :: pending) seen types after

/-- The listeners of a cell; none outside the arena. -/
def listenersOf (types : TypeCells) (id : CellId) : List CellId := (types.cell? id).elim [] TypeCell.listeners

theorem listenersOf_told (types : TypeCells) (id other : CellId) :
    (types.update id (told type fix)).listenersOf other = types.listenersOf other := by
  rw [listenersOf, listenersOf, cell?_update]
  split
  · cases types.cell? other <;> rfl
  · rfl

/-- How many cells may still come up: the pending ones, and the listeners of the cells that were not seen yet. -/
def outstanding (types : TypeCells) (pending seen : List CellId) : Nat :=
  pending.length + ∑ id ∈ Finset.range types.cells.size with id ∉ seen, (types.listenersOf id).length

theorem outstanding_told (types : TypeCells) (id : CellId) (pending seen : List CellId) :
    (types.update id (told type fix)).outstanding pending seen = types.outstanding pending seen := by
  simp only [outstanding, size_update, listenersOf_told]

/-- A cell that is seen puts its listeners in line at most, so one cell less may come up. -/
theorem outstanding_see {seen : List CellId} (hNew : id ∉ seen) (hCell : types.cell? id = some cell)
    (pending : List CellId) :
    types.outstanding (cell.listeners ++ pending) (id :: seen) + 1 = types.outstanding (id :: pending) seen := by
  have hMember : id ∈ (Finset.range types.cells.size).filter (· ∉ seen) := by
    simpa [hNew] using lt_of_cell? hCell
  have hErase : (Finset.range types.cells.size).filter (· ∉ id :: seen) =
      ((Finset.range types.cells.size).filter (· ∉ seen)).erase id := by
    ext other
    simp only [Finset.mem_filter, Finset.mem_erase, List.mem_cons, not_or]
    tauto
  have hSum := Finset.add_sum_erase _ (fun id => (types.listenersOf id).length) hMember
  have hListeners : types.listenersOf id = cell.listeners := by simp [listenersOf, hCell]
  simp only [hListeners] at hSum
  simp only [outstanding, hErase, List.length_append, List.length_cons]
  omega

/-- With a bound beyond what is outstanding, telling comes to its end. -/
theorem spreads_spread (fuel : Nat) (pending seen : List CellId) (types : TypeCells)
    (hFuel : types.outstanding pending seen < fuel) :
    Spreads type fix pending seen types (types.spread type fix fuel pending seen) := by
  induction fuel generalizing pending seen types with
  | zero => exact absurd hFuel (Nat.not_lt_zero _)
  | succ fuel ih =>
      cases pending with
      | nil => exact .done seen types
      | cons id pending =>
          have hPass : types.outstanding pending seen < fuel := by
            simp only [outstanding, List.length_cons] at hFuel ⊢
            omega
          rw [spread]
          split
          · next cell hCell =>
              split
              · next hPassed =>
                  refine .pass ?_ (ih _ _ _ hPass)
                  simpa [hCell] using hPassed
              · next hPassed =>
                  obtain ⟨hNew, hHeld⟩ : id ∉ seen ∧ cell.handles ≠ 0 := by simpa using hPassed
                  have hSee := outstanding_see hNew hCell pending
                  split
                  · next hFixed =>
                      refine .keep hNew hCell hHeld hFixed (ih _ _ _ ?_)
                      simp only [outstanding, List.length_append] at hSee hFuel ⊢
                      omega
                  · next hOpen =>
                      refine .tell hNew hCell hHeld (Bool.eq_false_iff.mpr hOpen) (ih _ _ _ ?_)
                      rw [outstanding_told]
                      omega
          · next hNone => exact .pass (.inr (by simp [hNone])) (ih _ _ _ hPass)

/-- The links of all cells are what may come up beside the first cell. -/
theorem outstanding_start (types : TypeCells) (id : CellId) :
    types.outstanding [id] [] = types.cells.foldl (fun count cell => count + cell.listeners.length) 0 + 1 := by
  have hSum : ∀ cells : List TypeCell, cells.foldl (fun count cell => count + cell.listeners.length) 0 =
      (cells.map fun cell => cell.listeners.length).sum := fun cells => by
    rw [List.sum_eq_foldl, List.foldl_map]
  have hCells : types.cells.toList.map (fun cell => cell.listeners.length) =
      List.ofFn fun id : Fin types.cells.size => (types.listenersOf id).length := by
    refine List.ext_getElem (by simp) fun place hPlace _ => ?_
    simp [listenersOf, cell?]
  rw [← Array.foldl_toList, hSum, hCells, List.sum_ofFn,
    Fin.sum_univ_eq_sum_range fun id => (types.listenersOf id).length]
  simp [outstanding, Nat.add_comm]

theorem Spreads.unique {pending seen : List CellId} {later : TypeCells} (first : Spreads type fix pending seen types after)
    (second : Spreads type fix pending seen types later) : after = later := by
  induction first with
  | done => cases second; rfl
  | pass hPassed _ ih =>
      cases second with
      | pass _ rest => exact ih rest
      | keep hNew hCell hHeld => exact absurd (hPassed.resolve_left hNew _ hCell) hHeld
      | tell hNew hCell hHeld => exact absurd (hPassed.resolve_left hNew _ hCell) hHeld
  | keep hNew hCell hHeld hFixed _ ih =>
      cases second with
      | pass hPassed => exact absurd (hPassed.resolve_left hNew _ hCell) hHeld
      | keep _ _ _ _ rest => exact ih rest
      | tell _ hOther _ hOpen =>
          rw [hCell, Option.some.injEq] at hOther
          simp [← hOther, hFixed] at hOpen
  | tell hNew hCell hHeld hOpen _ ih =>
      cases second with
      | pass hPassed => exact absurd (hPassed.resolve_left hNew _ hCell) hHeld
      | keep _ hOther _ hFixed =>
          rw [hCell, Option.some.injEq] at hOther
          simp [← hOther, hOpen] at hFixed
      | tell _ hOther _ _ rest =>
          rw [hCell, Option.some.injEq] at hOther
          subst hOther
          exact ih rest

/-- Telling without a bound comes to its end, and the bound on the steps of `tell` is never met. -/
theorem spreads_iff (types : TypeCells) (start : CellId) :
    Spreads type fix [start] [] types after ↔ after = types.tell start type fix := by
  have hEnds : Spreads type fix [start] [] types (types.tell start type fix) := by
    refine spreads_spread _ _ _ _ ?_
    rw [outstanding_start]
    exact Nat.lt_succ_self _
  exact ⟨fun hSpreads => hSpreads.unique hEnds, fun hTell => hTell ▸ hEnds⟩

/-! ### The cells that are told -/

/-- Where telling stands: of the cells seen so far the open ones were told, every open cell seen or pending is reached,
and the open listeners of a cell that was told are seen or pending. -/
structure Spreading (before : TypeCells) (start : CellId) (type : JvmType) (fix : Bool) (pending seen : List CellId)
    (now : TypeCells) : Prop where
  cells : ∀ id, now.cell? id =
    (before.cell? id).map fun cell => if id ∈ seen ∧ cell.fixed = false then told type fix cell else cell
  reached : ∀ id, id ∈ seen ∨ id ∈ pending → before.IsOpen id → before.Reaches start id
  closed : ∀ id, id = start ∨ (∃ source ∈ seen, before.IsOpen source ∧ before.Listens source id) → before.IsOpen id →
    id ∈ seen ∨ id ∈ pending

namespace Spreading

variable {before now : TypeCells} {pending seen : List CellId}

theorem begin (before : TypeCells) (start : CellId) : Spreading before start type fix [start] [] before where
  cells id := by simp
  reached id hId hOpen := by
    obtain rfl : id = start := by simpa using hId
    exact .start hOpen
  closed id hId _ := by simpa using hId

/-- A cell that was not seen yet is as it was before. -/
theorem cell?_of_not_mem (spreading : Spreading before start type fix pending seen now) (hNew : id ∉ seen) :
    now.cell? id = before.cell? id := by
  simp [spreading.cells, hNew]

/-- A pending cell that is passed over was seen before, for all cells have holders. -/
theorem pass (alive : KeptAlive before) (spreading : Spreading before start type fix (id :: pending) seen now)
    (hPassed : id ∈ seen ∨ ∀ cell, now.cell? id = some cell → cell.handles = 0) :
    Spreading before start type fix pending seen now where
  cells := spreading.cells
  reached other hOther := spreading.reached other (hOther.imp_right (List.mem_cons_of_mem _))
  closed other hOther hOpen := by
    by_cases hSeen : other ∈ seen
    · exact .inl hSeen
    rcases List.mem_cons.mp ((spreading.closed other hOther hOpen).resolve_left hSeen) with rfl | hPending
    · obtain ⟨cell, hCell, -⟩ := hOpen
      have hDead := hPassed.resolve_left hSeen cell (by rw [spreading.cell?_of_not_mem hSeen, hCell])
      exact absurd hDead (alive cell (Array.mem_of_getElem? hCell))
    · exact .inr hPending

/-- The next cell is seen. If it is open its listeners come into line, and otherwise nothing does. -/
theorem see (spreading : Spreading before start type fix (id :: pending) seen now) {line : List CellId} {later : TypeCells}
    (hCell : before.cell? id = some cell)
    (hLater : ∀ other, later.cell? other = if id = other ∧ cell.fixed = false then some (told type fix cell) else now.cell? other)
    (hLine : ∀ other, other ∈ line ↔ other ∈ pending ∨ cell.fixed = false ∧ other ∈ cell.listeners) :
    Spreading before start type fix line (id :: seen) later where
  cells other := by
    rw [hLater, spreading.cells]
    by_cases hSame : id = other
    · subst hSame
      cases hOpen : cell.fixed <;> simp [hCell, hOpen]
    · simp [hSame, Ne.symm hSame]
  reached other hOther hOpen := by
    rcases hOther with hSeen | hLined
    · rcases List.mem_cons.mp hSeen with rfl | hSeen
      · exact spreading.reached other (.inr List.mem_cons_self) hOpen
      · exact spreading.reached other (.inl hSeen) hOpen
    · rcases (hLine other).mp hLined with hPending | ⟨hOpenId, hListener⟩
      · exact spreading.reached other (.inr (List.mem_cons_of_mem _ hPending)) hOpen
      · have hReaches : before.Reaches start id := spreading.reached id (.inr List.mem_cons_self) ⟨cell, hCell, hOpenId⟩
        exact hReaches.step ⟨cell, hCell, hListener⟩ hOpen
  closed other hOther hOpen := by
    have hOld : (other = start ∨ ∃ source ∈ seen, before.IsOpen source ∧ before.Listens source other) →
        other ∈ id :: seen ∨ other ∈ line := fun hOther => by
      rcases spreading.closed other hOther hOpen with hSeen | hPending
      · exact .inl (List.mem_cons_of_mem _ hSeen)
      · rcases List.mem_cons.mp hPending with rfl | hPending
        · exact .inl List.mem_cons_self
        · exact .inr ((hLine other).mpr (.inl hPending))
    rcases hOther with hStart | ⟨source, hSource, hOpenSource, hListens⟩
    · exact hOld (.inl hStart)
    rcases List.mem_cons.mp hSource with rfl | hSource
    · -- The cell that is seen just now has put this listener in line.
      obtain ⟨found, hFound, hListener⟩ := hListens
      obtain ⟨guess, hGuess, hOpenGuess⟩ := hOpenSource
      rw [hCell, Option.some.injEq] at hFound hGuess
      subst hFound hGuess
      exact .inr ((hLine other).mpr (.inr ⟨hOpenGuess, hListener⟩))
    · exact hOld (.inr ⟨source, hSource, hOpenSource, hListens⟩)

/-- At the end the cells that were told are those that are reached. -/
theorem mem_seen (spreading : Spreading before start type fix [] seen now) (hOpen : before.IsOpen id) :
    id ∈ seen ↔ before.Reaches start id := by
  constructor
  · exact fun hSeen => spreading.reached id (.inl hSeen) hOpen
  · intro hReaches
    induction hReaches with
    | start isOpen => simpa using spreading.closed start (.inl rfl) isOpen
    | step prior listens isOpen ih =>
        simpa using spreading.closed _ (.inr ⟨_, ih prior.isOpen, prior.isOpen, listens⟩) isOpen

end Spreading

theorem Spreads.finish {before now : TypeCells} {pending seen : List CellId} (alive : KeptAlive before)
    (spreads : Spreads type fix pending seen now after) (spreading : Spreading before start type fix pending seen now) :
    ∃ seen, Spreading before start type fix [] seen after := by
  induction spreads with
  | done seen types => exact ⟨seen, spreading⟩
  | pass hPassed _ ih => exact ih (spreading.pass alive hPassed)
  | keep hNew hCell _ hFixed _ ih =>
      rw [spreading.cell?_of_not_mem hNew] at hCell
      exact ih (spreading.see hCell (by simp [hFixed]) (by simp [hFixed]))
  | tell hNew hCell _ hOpen _ ih =>
      have hBefore := spreading.cell?_of_not_mem hNew ▸ hCell
      refine ih (spreading.see hBefore (fun other => ?_) (by simp [hOpen, or_comm]))
      rw [cell?_update]
      split
      · next hSame =>
          subst hSame
          simp [hCell, hOpen]
      · next hOther => simp [hOther]

/-- Telling a type has told it to the cells that are reached, and to no other cell. -/
def ToldReached (before : TypeCells) (start : CellId) (type : JvmType) (fix : Bool) (after : TypeCells) : Prop :=
  ∀ id, (before.Reaches start id → after.cell? id = (before.cell? id).map (told type fix)) ∧
    (¬before.Reaches start id → after.cell? id = before.cell? id)

theorem toldReached_of_spreads (alive : KeptAlive types) (spreads : Spreads type fix [start] [] types after) :
    ToldReached types start type fix after := by
  obtain ⟨seen, spreading⟩ := spreads.finish alive (.begin types start)
  refine fun id => ⟨fun hReaches => ?_, fun hApart => ?_⟩
  · obtain ⟨cell, hCell, hOpen⟩ := hReaches.isOpen
    have hSeen := (spreading.mem_seen ⟨cell, hCell, hOpen⟩).mpr hReaches
    simp [spreading.cells, hCell, hOpen, hSeen]
  · rw [spreading.cells]
    cases hCell : types.cell? id with
    | none => rfl
    | some cell =>
        have hKept : ¬(id ∈ seen ∧ cell.fixed = false) := fun ⟨hSeen, hOpen⟩ =>
          hApart ((spreading.mem_seen ⟨cell, hCell, hOpen⟩).mp hSeen)
        simp [hKept]

theorem toldReached_tell (alive : KeptAlive types) (start : CellId) (type : JvmType) (fix : Bool) :
    ToldReached types start type fix (types.tell start type fix) :=
  toldReached_of_spreads alive ((spreads_iff types start).mpr rfl)

end Decompiler.TypeCells
