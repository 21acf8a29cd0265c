import Decompiler.Proofs.Types.Spread

/-!
Any sequence of operations on type cells. Whatever is done, a type that is certain stays as it is; and what one
operation tells reaches the bound cells exactly.
-/

namespace Decompiler.TypeCells

variable {types before middle after : TypeCells} {id : CellId} {cell : TypeCell}

/-! ### The parts of a binding -/

/-- From now on the second cell listens to the first. What is certain from the start neither speaks nor listens. -/
def link (types : TypeCells) : TypeRef → TypeRef → TypeCells
  | .cell id, .cell listener => types.update id fun cell => { cell with listeners := cell.listeners ++ [listener] }
  | .cell _, .known _ | .known _, _ => types

/-- Hands on what another value is known to be. -/
def teach (types : TypeCells) (target : TypeRef) (type : JvmType) (fix : Bool) : TypeCells :=
  if type = .unknown then types else if fix then types.fix target type else types.suggest target type

theorem bind_self (types : TypeCells) (ref : TypeRef) : types.bind ref ref = types := if_pos rfl

/-- A cell that is bound listens first and is then told what the other one knows. -/
theorem bind_eq (types : TypeCells) {source target : TypeRef} (hOther : source ≠ target) :
    types.bind source target = (types.link source target).teach target
      ((types.link source target).typeOf source) ((types.link source target).isFixed source) := by
  rw [bind.eq_def, if_neg hOther]
  cases source <;> cases target <;> rfl

/-- Teaching a cell is telling it. -/
theorem teach_cell {type : JvmType} (hType : type ≠ .unknown) (types : TypeCells) (id : CellId) (fix : Bool) :
    types.teach (.cell id) type fix = types.tell id type fix := by
  cases fix <;> simp [teach, TypeCells.fix, suggest, hType]

/-- There is nothing to hand on of an unknown type. -/
theorem teach_unknown (types : TypeCells) (target : TypeRef) (fix : Bool) :
    types.teach target .unknown fix = types := if_pos rfl

/-! ### Certain types -/

/-- What is certain before is certain after, and the same. -/
def KeepsFixed (before after : TypeCells) : Prop :=
  ∀ id cell, before.cell? id = some cell → cell.fixed = true →
    ∃ later, after.cell? id = some later ∧ later.type = cell.type ∧ later.fixed = true

namespace KeepsFixed

theorem refl (types : TypeCells) : KeepsFixed types types := fun _ cell hCell hFixed => ⟨cell, hCell, rfl, hFixed⟩

theorem trans (first : KeepsFixed before middle) (second : KeepsFixed middle after) : KeepsFixed before after := by
  intro id cell hCell hFixed
  obtain ⟨between, hBetween, hType, hStill⟩ := first id cell hCell hFixed
  obtain ⟨later, hLater, hLaterType, hLaterFixed⟩ := second id between hBetween hStill
  exact ⟨later, hLater, hLaterType.trans hType, hLaterFixed⟩

/-- A change that leaves certain cells as they are. -/
theorem update {change : TypeCell → TypeCell} (hChange : ∀ cell, types.cell? id = some cell → cell.fixed = true →
    (change cell).type = cell.type ∧ (change cell).fixed = true) : KeepsFixed types (types.update id change) := by
  intro other cell hCell hFixed
  by_cases hSame : id = other
  · subst hSame
    exact ⟨change cell, by simp [cell?_update, hCell], hChange cell hCell hFixed⟩
  · exact ⟨cell, by rw [cell?_update, if_neg hSame, hCell], rfl, hFixed⟩

theorem add (types : TypeCells) (type : JvmType) (fixed : Bool) : KeepsFixed types (types.add type fixed).2 := by
  intro id cell hCell hFixed
  refine ⟨cell, ?_, rfl, hFixed⟩
  rw [← hCell, cell?_add_of_lt (lt_of_cell? hCell)]

/-- By induction on the bound: a certain cell that is met is passed over. -/
theorem spread (type : JvmType) (fix : Bool) (fuel : Nat) (pending seen : List CellId) (types : TypeCells) :
    KeepsFixed types (types.spread type fix fuel pending seen) := by
  fun_induction TypeCells.spread type fix fuel pending seen types with
  | case1 | case2 => exact refl _
  | case3 _ _ _ _ _ _ _ _ ih | case4 _ _ _ _ _ _ _ _ _ ih | case6 _ _ _ _ _ _ ih => exact ih
  | case5 _ id pending seen types cell hCell _ hOpen ih =>
      refine (update fun found hFound hFixed => absurd hFixed ?_).trans ih
      rw [hCell, Option.some.injEq] at hFound
      exact hFound ▸ hOpen

/-- What is told to a cell spreads from it, and no certain cell learns from it. -/
theorem tell (types : TypeCells) (id : CellId) (type : JvmType) (fix : Bool) :
    KeepsFixed types (types.tell id type fix) :=
  spread type fix _ [id] [] types

/-- A type that becomes certain does so for open cells only. -/
theorem fix (types : TypeCells) (ref : TypeRef) (type : JvmType) : KeepsFixed types (types.fix ref type) := by
  cases ref with
  | known => exact refl types
  | cell id => exact tell types id type true

/-- A guess reaches open cells only. -/
theorem suggest (types : TypeCells) (ref : TypeRef) (type : JvmType) : KeepsFixed types (types.suggest ref type) := by
  cases ref with
  | known => exact refl types
  | cell id =>
      rw [TypeCells.suggest]
      split
      · exact refl types
      · exact tell types id type false

/-- Listening is noted in the cells beside their types. -/
theorem link (types : TypeCells) (source target : TypeRef) : KeepsFixed types (types.link source target) := by
  cases source with
  | known => exact refl types
  | cell id =>
      cases target with
      | known => exact refl types
      | cell => exact update fun _ _ hFixed => ⟨rfl, hFixed⟩

theorem teach (types : TypeCells) (target : TypeRef) (type : JvmType) (certain : Bool) :
    KeepsFixed types (types.teach target type certain) := by
  rw [TypeCells.teach]
  split
  · exact refl types
  · split
    · exact fix types target type
    · exact suggest types target type

theorem bind (types : TypeCells) (source target : TypeRef) : KeepsFixed types (types.bind source target) := by
  by_cases hSame : source = target
  · rw [hSame, bind_self]
    exact refl types
  · rw [bind_eq types hSame]
    exact (link types source target).trans (teach _ _ _ _)

/-- Two values listen to each other, and the one that knows more is heard first. -/
theorem bindMutually (types : TypeCells) (this other : TypeRef) :
    KeepsFixed types (types.bindMutually this other) := by
  rw [TypeCells.bindMutually]
  split
  · exact (bind types other this).trans (bind _ _ _)
  · exact (bind types this other).trans (bind _ _ _)

end KeepsFixed

/-! ### Operations -/

/-- What the steps of an execution do to type cells. -/
inductive Operation where
  | create (type : JvmType) (fixed : Bool)
  | retain (id : CellId)
  | release (id : CellId)
  | fix (ref : TypeRef) (type : JvmType)
  | suggest (ref : TypeRef) (type : JvmType)
  | bind (source target : TypeRef)
  | bindMutually (this other : TypeRef)

namespace Operation

/-- The cells after one operation. -/
def apply (types : TypeCells) : Operation → TypeCells
  | .create type fixed => (types.add type fixed).2
  | .retain id => types.retain id
  | .release id => types.release id
  | .fix ref type => types.fix ref type
  | .suggest ref type => types.suggest ref type
  | .bind source target => types.bind source target
  | .bindMutually this other => types.bindMutually this other

/-- The operations in turn. -/
def run (types : TypeCells) (operations : List Operation) : TypeCells := operations.foldl apply types

/-- One operation. -/
theorem apply_keepsFixed (types : TypeCells) (operation : Operation) : KeepsFixed types (operation.apply types) := by
  cases operation with
  | create type fixed => exact .add types type fixed
  | retain | release => exact .update fun _ _ hFixed => ⟨rfl, hFixed⟩
  | fix ref type => exact .fix types ref type
  | suggest ref type => exact .suggest types ref type
  | bind source target => exact .bind types source target
  | bindMutually this other => exact .bindMutually types this other

/-- By induction on the operations. -/
theorem run_keepsFixed (types : TypeCells) (operations : List Operation) :
    KeepsFixed types (run types operations) := by
  induction operations generalizing types with
  | nil => exact .refl types
  | cons operation rest ih => exact (apply_keepsFixed types operation).trans (ih _)

end Operation

/-- While every cell has a holder, telling a type reaches exactly the cells that listen to the first one through open
cells, whether the type is certain or a guess; telling without a bound on its steps comes to its end there; and no
sequence of operations changes a type that is certain. -/
theorem tell_reaches (types : TypeCells) (alive : KeptAlive types) (start : CellId) (type : JvmType) :
    ToldReached types start type true (types.fix (.cell start) type) ∧
      (type ≠ .unknown → ToldReached types start type false (types.suggest (.cell start) type)) ∧
      (∀ fix after, Spreads type fix [start] [] types after ↔ after = types.tell start type fix) ∧
      ∀ operations, KeepsFixed types (Operation.run types operations) := by
  refine ⟨toldReached_tell alive start type true, fun hType => ?_, fun _ _ => spreads_iff types start,
    Operation.run_keepsFixed types⟩
  rw [suggest, if_neg hType]
  exact toldReached_tell alive start type false

/-- Two cells that listen to each other; the second one is heard by a cell that is certain, and that one by another. -/
def ring : TypeCells where
  cells := #[{ type := .unknown, fixed := false, listeners := [1] },
    { type := .unknown, fixed := false, listeners := [0, 2] }, { type := .int, fixed := true, listeners := [3] },
    { type := .char, fixed := false }]

/-- The ring learns the type, and the certain cell keeps it from the last one. -/
theorem tell_reaches_ring : ring.KeptAlive ∧ JvmType.boolean ≠ .unknown ∧
    ToldReached ring 0 .boolean true (ring.fix (.cell 0) .boolean) ∧
    ToldReached ring 0 .boolean false (ring.suggest (.cell 0) .boolean) ∧
    (ring.fix (.cell 0) .boolean).cells.toList.map TypeCell.type = [.boolean, .boolean, .int, .char] := by
  have hAlive : ring.KeptAlive := by decide
  have hReaches := tell_reaches ring hAlive 0 .boolean
  exact ⟨hAlive, by decide, hReaches.1, hReaches.2.1 (by decide), by decide⟩

end Decompiler.TypeCells
