import Decompiler.Proofs.Types.Operation

/-!
Cells that are bound both ways agree for ever. While both are a guess they hear all that reaches either of them, and
once one is certain it has told the other one so.
-/

namespace Decompiler.TypeCells

variable {types before middle after : TypeCells} {start id mate : CellId} {cell : TypeCell} {type : JvmType}
  {this other source target ref : TypeRef}

/-! ### What is known of a value -/

/-- Every cell has a holder, and no cell is certain of nothing. -/
structure Sound (types : TypeCells) : Prop where
  alive : KeptAlive types
  informed : ∀ cell ∈ types.cells, cell.fixed = true → cell.type ≠ .unknown

/-- The cell exists, or the type is one. -/
def Present (types : TypeCells) : TypeRef → Prop
  | .known type => type ≠ .unknown
  | .cell id => id < types.cells.size

instance (types : TypeCells) : (ref : TypeRef) → Decidable (types.Present ref)
  | .known type => inferInstanceAs (Decidable (type ≠ .unknown))
  | .cell id => inferInstanceAs (Decidable (id < types.cells.size))

/-- The type will not change any more. -/
def IsCertain (types : TypeCells) : TypeRef → Prop
  | .known _ => True
  | .cell id => ∃ cell, types.cell? id = some cell ∧ cell.fixed = true

/-- Both values have the same type, equally certain, if one of them is a guess. -/
def Agree (types : TypeCells) (this other : TypeRef) : Prop :=
  ¬(types.isFixed this = true ∧ types.isFixed other = true) →
    types.typeOf this = types.typeOf other ∧ types.isFixed this = types.isFixed other

theorem typeOf_cell (hCell : types.cell? id = some cell) : types.typeOf (.cell id) = cell.type := by
  simp [typeOf, hCell]

theorem isFixed_cell (hCell : types.cell? id = some cell) : types.isFixed (.cell id) = cell.fixed := by
  simp [isFixed, hCell]

theorem IsCertain.isFixed (isCertain : types.IsCertain ref) : types.isFixed ref = true := by
  cases ref with
  | known => rfl
  | cell id =>
      obtain ⟨cell, hCell, hFixed⟩ := isCertain
      rw [isFixed_cell hCell, hFixed]

theorem IsOpen.isFixed (isOpen : types.IsOpen id) : types.isFixed (.cell id) = false := by
  obtain ⟨cell, hCell, hOpen⟩ := isOpen
  rw [isFixed_cell hCell, hOpen]

/-- A value is certain, or it is a cell with a guess. -/
theorem Present.cases (present : types.Present ref) :
    types.IsCertain ref ∨ ∃ id, ref = .cell id ∧ types.IsOpen id := by
  cases ref with
  | known => exact .inl trivial
  | cell id =>
      have hCell : types.cell? id = some types.cells[id] := Array.getElem?_eq_getElem present
      cases hFixed : types.cells[id].fixed with
      | true => exact .inl ⟨_, hCell, hFixed⟩
      | false => exact .inr ⟨id, rfl, _, hCell, hFixed⟩

/-- What is certain is known. -/
theorem Sound.typeOf_ne (sound : Sound types) (present : types.Present ref) (isCertain : types.IsCertain ref) :
    types.typeOf ref ≠ .unknown := by
  cases ref with
  | known => exact present
  | cell id =>
      obtain ⟨cell, hCell, hFixed⟩ := isCertain
      rw [typeOf_cell hCell]
      exact sound.informed cell (Array.mem_of_getElem? hCell) hFixed

/-- The two values agree and always will: both are certain, they are the same, or they are guesses that hear each
other. -/
inductive Bonded (types : TypeCells) : TypeRef → TypeRef → Prop
  | certain {this other : TypeRef} (hThis : types.IsCertain this) (hOther : types.IsCertain other) :
      Bonded types this other
  | same (ref : TypeRef) : Bonded types ref ref
  | paired {id mate : CellId} (hThis : types.IsOpen id) (hOther : types.IsOpen mate) (hForth : types.Listens id mate)
      (hBack : types.Listens mate id) (hType : types.typeOf (.cell id) = types.typeOf (.cell mate)) :
      Bonded types (.cell id) (.cell mate)

/-- Guesses that hear each other have one type, by the time that they are bonded. -/
theorem Bonded.agree (bonded : Bonded types this other) : Agree types this other := by
  cases bonded with
  | certain hThis hOther => exact fun hGuess => absurd ⟨hThis.isFixed, hOther.isFixed⟩ hGuess
  | same => exact fun _ => ⟨rfl, rfl⟩
  | paired hThis hOther _ _ hType => exact fun _ => ⟨hType, hThis.isFixed.trans hOther.isFixed.symm⟩

/-! ### Development -/

/-- What never changes back from one state to a later one. -/
structure Develops (before after : TypeCells) : Prop where
  sound : Sound after
  present : ∀ {ref}, before.Present ref → after.Present ref
  keepsFixed : KeepsFixed before after
  listens : ∀ {id other}, before.Listens id other → after.Listens id other
  bonded : ∀ {this other}, Bonded before this other → Bonded after this other

/-- What is certain stays so. -/
theorem KeepsFixed.isCertain (keepsFixed : KeepsFixed before after) (isCertain : before.IsCertain ref) :
    after.IsCertain ref := by
  cases ref with
  | known => trivial
  | cell id =>
      obtain ⟨cell, hCell, hFixed⟩ := isCertain
      obtain ⟨later, hLater, -, hLaterFixed⟩ := keepsFixed id cell hCell hFixed
      exact ⟨later, hLater, hLaterFixed⟩

namespace Develops

theorem refl (sound : Sound types) : Develops types types := ⟨sound, id, .refl types, id, id⟩

/-- Moments one after the other. -/
theorem trans (first : Develops before middle) (second : Develops middle after) : Develops before after where
  sound := second.sound
  present := second.present ∘ first.present
  keepsFixed := first.keepsFixed.trans second.keepsFixed
  listens := second.listens ∘ first.listens
  bonded := second.bonded ∘ first.bonded

/-- Cells that become no smaller and know what they knew. -/
theorem of_cells (sound : Sound after) (hSize : before.cells.size ≤ after.cells.size)
    (hCells : ∀ id cell, before.cell? id = some cell → ∃ later, after.cell? id = some later ∧
      later.type = cell.type ∧ later.fixed = cell.fixed ∧ cell.listeners ⊆ later.listeners) :
    Develops before after := by
  have hPresent : ∀ {ref}, before.Present ref → after.Present ref := fun {ref} present => by
    cases ref with
    | known => exact present
    | cell id => exact Nat.lt_of_lt_of_le present hSize
  have hKeeps : KeepsFixed before after := fun id cell hCell hFixed => by
    obtain ⟨later, hLater, hType, hLaterFixed, -⟩ := hCells id cell hCell
    exact ⟨later, hLater, hType, hLaterFixed.trans hFixed⟩
  have hListens : ∀ {id other}, before.Listens id other → after.Listens id other := fun ⟨cell, hCell, hListener⟩ => by
    obtain ⟨later, hLater, -, -, hMore⟩ := hCells _ cell hCell
    exact ⟨later, hLater, hMore hListener⟩
  have hOpen : ∀ {id}, before.IsOpen id → after.IsOpen id ∧ after.typeOf (.cell id) = before.typeOf (.cell id) :=
    fun ⟨cell, hCell, hGuess⟩ => by
      obtain ⟨later, hLater, hType, hFixed, -⟩ := hCells _ cell hCell
      exact ⟨⟨later, hLater, hFixed.trans hGuess⟩, by rw [typeOf_cell hLater, typeOf_cell hCell, hType]⟩
  refine ⟨sound, hPresent, hKeeps, hListens, fun bonded => ?_⟩
  cases bonded with
  | certain hThis hOther => exact .certain (hKeeps.isCertain hThis) (hKeeps.isCertain hOther)
  | same => exact .same _
  | paired hThis hOther hForth hBack hType =>
      refine .paired (hOpen hThis).1 (hOpen hOther).1 (hListens hForth) (hListens hBack) ?_
      rw [(hOpen hThis).2, (hOpen hOther).2, hType]

/-- A new cell is heard by none and knows what it was made with. -/
theorem add (sound : Sound types) {fixed : Bool} (hType : fixed = true → type ≠ .unknown) :
    Develops types (types.add type fixed).2 := by
  have hMember : ∀ cell ∈ (types.add type fixed).2.cells, cell ∈ types.cells ∨ cell = { type, fixed } :=
    fun cell hCell => by simpa [TypeCells.add] using hCell
  refine of_cells ⟨fun cell hCell => ?_, fun cell hCell => ?_⟩ (by simp [TypeCells.add]) fun id cell hCell => ?_
  · rcases hMember cell hCell with hOld | rfl
    · exact sound.alive cell hOld
    · exact Nat.one_ne_zero
  · rcases hMember cell hCell with hOld | rfl
    · exact sound.informed cell hOld
    · exact hType
  · exact ⟨cell, by rw [cell?_add_of_lt (lt_of_cell? hCell), hCell], rfl, rfl, List.Subset.refl _⟩

/-- A cell that knows what it knew, while it has a holder and listeners come only on top. -/
theorem update (sound : Sound types) {change : TypeCell → TypeCell}
    (hChange : ∀ cell, types.cell? id = some cell → (change cell).type = cell.type ∧
      (change cell).fixed = cell.fixed ∧ (change cell).handles ≠ 0 ∧ cell.listeners ⊆ (change cell).listeners) :
    Develops types (types.update id change) := by
  have hMember : ∀ cell ∈ (types.update id change).cells,
      cell ∈ types.cells ∨ ∃ old, types.cell? id = some old ∧ cell = change old := fun cell hCell => by
    obtain ⟨place, hPlace⟩ := Array.mem_iff_getElem?.mp hCell
    have hFound : (types.update id change).cell? place = some cell := hPlace
    rw [cell?_update] at hFound
    split at hFound
    · next hSame =>
        subst hSame
        obtain ⟨old, hOld, rfl⟩ := Option.map_eq_some_iff.mp hFound
        exact .inr ⟨old, hOld, rfl⟩
    · exact .inl (Array.mem_of_getElem? hFound)
  refine of_cells ⟨fun cell hCell => ?_, fun cell hCell => ?_⟩ (Nat.le_of_eq (size_update ..).symm)
    fun other cell hCell => ?_
  · rcases hMember cell hCell with hOld | ⟨old, hOld, rfl⟩
    · exact sound.alive cell hOld
    · exact (hChange old hOld).2.2.1
  · rcases hMember cell hCell with hOld | ⟨old, hOld, rfl⟩
    · exact sound.informed cell hOld
    · obtain ⟨hType, hFixed, -⟩ := hChange old hOld
      rw [hType, hFixed]
      exact sound.informed old (Array.mem_of_getElem? hOld)
  · rw [cell?_update, hCell]
    split
    · next hSame =>
        subst hSame
        obtain ⟨hType, hFixed, -, hListeners⟩ := hChange cell hCell
        exact ⟨change cell, rfl, hType, hFixed, hListeners⟩
    · exact ⟨cell, rfl, rfl, rfl, List.Subset.refl _⟩

end Develops

/-! ### Telling -/

namespace ToldReached

variable {fix : Bool}

/-- Every cell is as before, or it was reached and told. -/
theorem cell?_cases (told : ToldReached before start type fix after) (hAfter : after.cell? id = some cell) :
    before.cell? id = some cell ∨
      before.Reaches start id ∧ ∃ old, before.cell? id = some old ∧ cell = TypeCells.told type fix old := by
  by_cases hReaches : before.Reaches start id
  · rw [(told id).1 hReaches] at hAfter
    obtain ⟨old, hOld, rfl⟩ := Option.map_eq_some_iff.mp hAfter
    exact .inr ⟨hReaches, old, hOld, rfl⟩
  · exact .inl ((told id).2 hReaches ▸ hAfter)

/-- Whoever is reached has the type that was told. -/
theorem typeOf_reached (told : ToldReached before start type fix after) (hReaches : before.Reaches start id) :
    after.typeOf (.cell id) = type := by
  obtain ⟨cell, hCell, -⟩ := hReaches.isOpen
  have hAfter := (told id).1 hReaches
  rw [hCell] at hAfter
  exact typeOf_cell hAfter

/-- Whoever is not reached keeps the type. -/
theorem typeOf_apart (told : ToldReached before start type fix after) (hApart : ¬before.Reaches start id) :
    after.typeOf (.cell id) = before.typeOf (.cell id) := by
  simp only [typeOf, (told id).2 hApart]

/-- A guess that is told leaves guesses open. -/
theorem isOpen (told : ToldReached before start type false after) (isOpen : before.IsOpen id) : after.IsOpen id := by
  obtain ⟨cell, hCell, hOpen⟩ := isOpen
  by_cases hReaches : before.Reaches start id
  · exact ⟨_, by rw [(told id).1 hReaches, hCell]; rfl, rfl⟩
  · exact ⟨cell, by rw [(told id).2 hReaches, hCell], hOpen⟩

/-- A certain type makes certain whom it reaches. -/
theorem isCertain (told : ToldReached before start type true after) (hReaches : before.Reaches start id) :
    after.IsCertain (.cell id) := by
  obtain ⟨cell, hCell, -⟩ := hReaches.isOpen
  exact ⟨_, by rw [(told id).1 hReaches, hCell]; rfl, rfl⟩

/-- Telling ends no listening. -/
theorem listens (told : ToldReached before start type fix after) {other : CellId} (listens : before.Listens id other) :
    after.Listens id other := by
  obtain ⟨cell, hCell, hListener⟩ := listens
  by_cases hReaches : before.Reaches start id
  · exact ⟨TypeCells.told type fix cell, by rw [(told id).1 hReaches, hCell]; rfl, hListener⟩
  · exact ⟨cell, by rw [(told id).2 hReaches, hCell], hListener⟩

/-- Two guesses that hear each other are reached together or not at all. -/
theorem paired (told : ToldReached before start type fix after) (hThis : before.IsOpen id) (hOther : before.IsOpen mate)
    (hForth : before.Listens id mate) (hBack : before.Listens mate id)
    (hType : before.typeOf (.cell id) = before.typeOf (.cell mate)) : Bonded after (.cell id) (.cell mate) := by
  have hTogether : before.Reaches start id ↔ before.Reaches start mate :=
    ⟨fun hReaches => hReaches.step hForth hOther, fun hReaches => hReaches.step hBack hThis⟩
  by_cases hReaches : before.Reaches start id
  · have hMate := hTogether.mp hReaches
    cases fix with
    | true => exact .certain (told.isCertain hReaches) (told.isCertain hMate)
    | false =>
        refine .paired (told.isOpen hThis) (told.isOpen hOther) (told.listens hForth) (told.listens hBack) ?_
        rw [told.typeOf_reached hReaches, told.typeOf_reached hMate]
  · have hMate := mt hTogether.mpr hReaches
    have hOpen : ∀ {place}, before.IsOpen place → ¬before.Reaches start place → after.IsOpen place :=
      fun ⟨cell, hCell, hOpen⟩ hApart => ⟨cell, by rw [(told _).2 hApart, hCell], hOpen⟩
    refine .paired (hOpen hThis hReaches) (hOpen hOther hMate) (told.listens hForth) (told.listens hBack) ?_
    rw [told.typeOf_apart hReaches, told.typeOf_apart hMate, hType]

end ToldReached

/-- Telling makes no cell. -/
theorem size_spread (type : JvmType) (fix : Bool) (fuel : Nat) (pending seen : List CellId) (types : TypeCells) :
    (types.spread type fix fuel pending seen).cells.size = types.cells.size := by
  fun_induction spread type fix fuel pending seen types <;> simp_all

/-- What is told is a type, so no cell becomes certain of nothing. -/
theorem Develops.tell (sound : Sound types) (hType : type ≠ .unknown) (start : CellId) (fix : Bool) :
    Develops types (types.tell start type fix) := by
  have told := toldReached_tell sound.alive start type fix
  have hMember : ∀ cell ∈ (types.tell start type fix).cells,
      cell ∈ types.cells ∨ ∃ old ∈ types.cells, cell = TypeCells.told type fix old := fun cell hCell => by
    obtain ⟨id, hId⟩ := Array.mem_iff_getElem?.mp hCell
    rcases told.cell?_cases hId with hOld | ⟨-, old, hOld, rfl⟩
    · exact .inl (Array.mem_of_getElem? hOld)
    · exact .inr ⟨old, Array.mem_of_getElem? hOld, rfl⟩
  have hKeeps := KeepsFixed.tell types start type fix
  refine ⟨⟨fun cell hCell => ?_, fun cell hCell => ?_⟩, fun {ref} present => ?_, hKeeps, told.listens,
    fun bonded => ?_⟩
  · rcases hMember cell hCell with hOld | ⟨old, hOld, rfl⟩
    · exact sound.alive cell hOld
    · exact sound.alive old hOld
  · rcases hMember cell hCell with hOld | ⟨old, -, rfl⟩
    · exact sound.informed cell hOld
    · exact fun _ => hType
  · cases ref with
    | known => exact present
    | cell id =>
        have hSize : (types.tell start type fix).cells.size = types.cells.size := size_spread ..
        exact Nat.lt_of_lt_of_eq present hSize.symm
  · cases bonded with
    | certain hThis hOther => exact .certain (hKeeps.isCertain hThis) (hKeeps.isCertain hOther)
    | same => exact .same _
    | paired hThis hOther hForth hBack hSame => exact told.paired hThis hOther hForth hBack hSame

/-! ### Binding -/

namespace Develops

theorem fix (sound : Sound types) (hType : type ≠ .unknown) (ref : TypeRef) : Develops types (types.fix ref type) := by
  cases ref with
  | known => exact refl sound
  | cell id => exact tell sound hType id true

theorem suggest (sound : Sound types) (ref : TypeRef) (type : JvmType) : Develops types (types.suggest ref type) := by
  cases ref with
  | known => exact refl sound
  | cell id =>
      rw [TypeCells.suggest]
      split
      · exact refl sound
      · next hType => exact tell sound hType id false

/-- A cell that listens knows no more by that alone. -/
theorem link (sound : Sound types) (source target : TypeRef) : Develops types (types.link source target) := by
  cases source with
  | known => exact refl sound
  | cell id =>
      cases target with
      | known => exact refl sound
      | cell listener =>
          refine update sound fun cell hCell => ⟨rfl, rfl, ?_, List.subset_append_left _ _⟩
          exact sound.alive cell (Array.mem_of_getElem? hCell)

theorem teach (sound : Sound types) (target : TypeRef) (type : JvmType) (certain : Bool) :
    Develops types (types.teach target type certain) := by
  rw [TypeCells.teach]
  split
  · exact refl sound
  · next hType =>
      split
      · exact fix sound hType target
      · exact suggest sound target type

theorem bind (sound : Sound types) (source target : TypeRef) : Develops types (types.bind source target) := by
  by_cases hSame : source = target
  · rw [hSame, bind_self]
    exact refl sound
  · rw [bind_eq types hSame]
    have hLink := link sound source target
    exact hLink.trans (teach hLink.sound _ _ _)

/-- By the two bindings that it is made of. -/
theorem bindMutually (sound : Sound types) (this other : TypeRef) : Develops types (types.bindMutually this other) := by
  rw [TypeCells.bindMutually]
  split
  · exact (bind sound other this).trans (bind (bind sound other this).sound _ _)
  · exact (bind sound this other).trans (bind (bind sound this other).sound _ _)

end Develops

/-- What is certain makes certain what is bound to it. -/
theorem isCertain_bind (sound : Sound types) (hSource : types.Present source) (hTarget : types.Present target)
    (isCertain : types.IsCertain source) : (types.bind source target).IsCertain target := by
  have hLink := Develops.link sound source target
  have hLinked := hLink.keepsFixed.isCertain isCertain
  rcases (hLink.present hTarget).cases with hCertain | ⟨id, rfl, isOpen⟩
  · by_cases hSame : source = target
    · rw [hSame, bind_self]
      exact hSame ▸ isCertain
    · rw [bind_eq types hSame]
      exact (KeepsFixed.teach _ _ _ _).isCertain hCertain
  · have hOther : source ≠ .cell id := fun hSame => by
      subst hSame
      exact absurd hLinked.isFixed (by simp [isOpen.isFixed])
    rw [bind_eq types hOther, hLinked.isFixed,
      teach_cell (hLink.sound.typeOf_ne (hLink.present hSource) hLinked)]
    exact (toldReached_tell hLink.sound.alive id _ true).isCertain (.start isOpen)

/-- A link tells nothing yet. -/
theorem typeOf_link (types : TypeCells) (source target ref : TypeRef) :
    (types.link source target).typeOf ref = types.typeOf ref := by
  cases ref with
  | known => rfl
  | cell id =>
      cases source with
      | known => rfl
      | cell source =>
          cases target with
          | known => rfl
          | cell target =>
              simp only [link, typeOf, cell?_update]
              split
              · cases types.cell? id <;> rfl
              · rfl

/-- A link decides nothing. -/
theorem isOpen_link (isOpen : types.IsOpen id) (source target : TypeRef) : (types.link source target).IsOpen id := by
  obtain ⟨cell, hCell, hOpen⟩ := isOpen
  cases source with
  | known => exact ⟨cell, hCell, hOpen⟩
  | cell source =>
      cases target with
      | known => exact ⟨cell, hCell, hOpen⟩
      | cell target =>
          rw [IsOpen, link, cell?_update, hCell]
          split
          · exact ⟨_, rfl, hOpen⟩
          · exact ⟨cell, rfl, hOpen⟩

/-- A guess that is bound to another one stays as it is. The other one takes it over, unless it is unknown. -/
theorem bind_open (sound : Sound types) (hSource : types.IsOpen id) (hTarget : types.IsOpen mate) (hOther : id ≠ mate) :
    (types.bind (.cell id) (.cell mate)).IsOpen id ∧ (types.bind (.cell id) (.cell mate)).IsOpen mate ∧
      (types.bind (.cell id) (.cell mate)).Listens id mate ∧
      (types.bind (.cell id) (.cell mate)).typeOf (.cell id) = types.typeOf (.cell id) ∧
      (types.bind (.cell id) (.cell mate)).typeOf (.cell mate) =
        if types.typeOf (.cell id) = .unknown then types.typeOf (.cell mate) else types.typeOf (.cell id) := by
  have hLink := Develops.link sound (.cell id) (.cell mate)
  have hLinkedSource := isOpen_link hSource (.cell id) (.cell mate)
  have hLinkedTarget := isOpen_link hTarget (.cell id) (.cell mate)
  have hListens : (types.link (.cell id) (.cell mate)).Listens id mate := by
    obtain ⟨cell, hCell, -⟩ := hSource
    exact ⟨_, by rw [link, cell?_update, if_pos rfl, hCell]; rfl, List.mem_concat_self⟩
  rw [bind_eq types (by simpa using hOther), hLinkedSource.isFixed, typeOf_link]
  split
  · next hUnknown =>
      rw [hUnknown, teach_unknown]
      exact ⟨hLinkedSource, hLinkedTarget, hListens, (typeOf_link ..).trans hUnknown, typeOf_link ..⟩
  · next hType =>
      rw [teach_cell hType]
      have told := toldReached_tell hLink.sound.alive mate (types.typeOf (.cell id)) false
      refine ⟨told.isOpen hLinkedSource, told.isOpen hLinkedTarget, told.listens hListens, ?_,
        told.typeOf_reached (.start hLinkedTarget)⟩
      -- A guess that hears itself is told what it has said.
      by_cases hReaches : (types.link (.cell id) (.cell mate)).Reaches mate id
      · exact told.typeOf_reached hReaches
      · rw [told.typeOf_apart hReaches, typeOf_link]

/-- Binding one way and then the other, when the first one to speak knows something or the second one does not. -/
theorem bonded_both_ways (sound : Sound types) (hFirst : types.IsOpen id) (hSecond : types.IsOpen mate)
    (hKnows : types.typeOf (.cell id) ≠ .unknown ∨ types.typeOf (.cell mate) = .unknown) :
    Bonded ((types.bind (.cell id) (.cell mate)).bind (.cell mate) (.cell id)) (.cell id) (.cell mate) := by
  by_cases hOther : id = mate
  · rw [hOther]
    exact .same _
  obtain ⟨hFirst, hSecond, hForth, hFirstType, hSecondType⟩ := bind_open sound hFirst hSecond hOther
  have hSound := (Develops.bind sound (.cell id) (.cell mate)).sound
  have hAgree : (types.bind (.cell id) (.cell mate)).typeOf (.cell mate) =
      (types.bind (.cell id) (.cell mate)).typeOf (.cell id) := by
    rw [hFirstType, hSecondType]
    split
    · next hUnknown => rw [hKnows.resolve_left (not_not.mpr hUnknown), hUnknown]
    · rfl
  obtain ⟨hSecond', hFirst', hBack, hSecondType', hFirstType'⟩ := bind_open hSound hSecond hFirst (Ne.symm hOther)
  refine .paired hFirst' hSecond' ((Develops.bind hSound _ _).listens hForth) hBack ?_
  rw [hFirstType', hSecondType', hAgree, ite_self]

/-- Neither side of a bond is preferred. -/
theorem Bonded.symm (bonded : Bonded types this other) : Bonded types other this := by
  cases bonded with
  | certain hThis hOther => exact .certain hOther hThis
  | same => exact .same _
  | paired hThis hOther hForth hBack hType => exact .paired hOther hThis hBack hForth hType.symm

/-- Once one side is certain, binding both ways makes both sides certain, in whichever order. -/
theorem certain_both_ways (sound : Sound types) (hSource : types.Present source) (hTarget : types.Present target)
    (isCertain : types.IsCertain source) :
    Bonded ((types.bind source target).bind target source) source target := by
  have hFirst := Develops.bind sound source target
  have hSecond := Develops.bind hFirst.sound target source
  exact .certain ((hFirst.trans hSecond).keepsFixed.isCertain isCertain)
    (hSecond.keepsFixed.isCertain (isCertain_bind sound hSource hTarget isCertain))

/-- Whatever the two sides know at first, they agree once they are bound. -/
theorem bonded_bindMutually (sound : Sound types) (hThis : types.Present this) (hOther : types.Present other) :
    Bonded (types.bindMutually this other) this other := by
  rw [bindMutually]
  rcases hOther.cases with hCertain | ⟨mate, rfl, hMate⟩
  · rw [if_pos (by simp [hCertain.isFixed])]
    exact (certain_both_ways sound hOther hThis hCertain).symm
  · rw [hMate.isFixed, Bool.false_or]
    rcases hThis.cases with hCertain | ⟨id, rfl, hId⟩
    · rw [if_neg (by simpa using sound.typeOf_ne hThis hCertain)]
      exact certain_both_ways sound hThis hOther hCertain
    · split
      · next hUnknown => exact (bonded_both_ways sound hMate hId (.inr (by simpa using hUnknown))).symm
      · next hKnown => exact bonded_both_ways sound hId hMate (.inl (by simpa using hKnown))

/-! ### Nothing new -/

/-- Whoever has the type that is told has it still. -/
theorem typeOf_spread_told (hType : types.typeOf ref = type) (fix : Bool) (fuel : Nat) (pending seen : List CellId) :
    (types.spread type fix fuel pending seen).typeOf ref = type := by
  fun_induction TypeCells.spread type fix fuel pending seen types with
  | case1 | case2 => exact hType
  | case3 _ _ _ _ _ _ _ _ ih | case4 _ _ _ _ _ _ _ _ _ ih | case6 _ _ _ _ _ _ ih => exact ih hType
  | case5 _ id pending seen types cell hCell _ hOpen ih =>
      refine ih ?_
      cases ref with
      | known => exact hType
      | cell mate =>
          rw [typeOf, cell?_update]
          split
          · next hSame => rw [← hSame, hCell]; rfl
          · exact hType

/-- Whoever has the type that is taught has it still. -/
theorem typeOf_teach_told (hType : types.typeOf ref = type) (target : TypeRef) (fix : Bool) :
    (types.teach target type fix).typeOf ref = type := by
  cases target with
  | known => rw [teach]; split <;> (try split) <;> exact hType
  | cell id =>
      by_cases hUnknown : type = .unknown
      · rw [hUnknown, teach_unknown, ← hUnknown, hType]
      · rw [teach_cell hUnknown]
        exact typeOf_spread_told hType fix _ _ _

/-- A binding changes no type that is the source's already. -/
theorem typeOf_bind_told (hSource : types.typeOf source = type) (hType : types.typeOf ref = type) (target : TypeRef) :
    (types.bind source target).typeOf ref = type := by
  by_cases hSame : source = target
  · rw [hSame, bind_self, hType]
  · rw [bind_eq types hSame, typeOf_link, hSource]
    exact typeOf_teach_told ((typeOf_link ..).trans hType) target _

/-- Values that have one type keep it when they are bound to each other. -/
theorem typeOf_bindMutually_agree (hAgree : types.typeOf this = types.typeOf other) :
    (types.bindMutually this other).typeOf this = types.typeOf this := by
  have hOther {source : TypeRef} (hSource : types.typeOf source = types.typeOf this) (target : TypeRef) :
      (types.bind source target).typeOf other = types.typeOf this := typeOf_bind_told hSource hAgree.symm target
  have hThis {source : TypeRef} (hSource : types.typeOf source = types.typeOf this) (target : TypeRef) :
      (types.bind source target).typeOf this = types.typeOf this := typeOf_bind_told hSource rfl target
  rw [bindMutually]
  split
  · exact typeOf_bind_told (hThis hAgree.symm this) (hThis hAgree.symm this) other
  · exact typeOf_bind_told (hOther rfl other) (hThis rfl other) this

/-! ### Operations -/

namespace Operation

/-- A certain cell is certain of something, cells keep a holder, and what is bound exists. -/
def Permitted (types : TypeCells) : Operation → Prop
  | .create type fixed => fixed = true → type ≠ .unknown
  | .release id => ∀ cell ∈ types.cell? id, 1 < cell.handles
  | .fix _ type => type ≠ .unknown
  | .bind source target => types.Present source ∧ types.Present target
  | .bindMutually this other => types.Present this ∧ types.Present other
  | .retain _ | .suggest _ _ => True

instance (types : TypeCells) : (operation : Operation) → Decidable (operation.Permitted types)
  | .create type fixed => inferInstanceAs (Decidable (fixed = true → type ≠ .unknown))
  | .release id => inferInstanceAs (Decidable (∀ cell ∈ types.cell? id, 1 < cell.handles))
  | .fix _ type => inferInstanceAs (Decidable (type ≠ .unknown))
  | .bind _ _ | .bindMutually _ _ => inferInstanceAs (Decidable (_ ∧ _))
  | .retain _ | .suggest _ _ => inferInstanceAs (Decidable True)

/-- Every operation is permitted when its turn comes. -/
def AllPermitted : TypeCells → List Operation → Prop
  | _, [] => True
  | types, operation :: rest => operation.Permitted types ∧ AllPermitted (operation.apply types) rest

instance : (types : TypeCells) → (operations : List Operation) → Decidable (AllPermitted types operations)
  | _, [] => inferInstanceAs (Decidable True)
  | types, operation :: rest =>
    have := instDecidableAllPermitted (operation.apply types) rest
    inferInstanceAs (Decidable (_ ∧ _))

/-- One operation. -/
theorem apply_develops (sound : Sound types) (operation : Operation) (hPermitted : operation.Permitted types) :
    Develops types (operation.apply types) := by
  cases operation with
  | create type fixed => exact .add sound hPermitted
  | retain id => exact .update sound fun cell _ => ⟨rfl, rfl, Nat.succ_ne_zero _, List.Subset.refl _⟩
  | release id =>
      refine .update sound fun cell hCell => ⟨rfl, rfl, ?_, List.Subset.refl _⟩
      exact Nat.sub_ne_zero_of_lt (hPermitted cell hCell)
  | fix ref type => exact .fix sound hPermitted ref
  | suggest ref type => exact .suggest sound ref type
  | bind source target => exact .bind sound source target
  | bindMutually this other => exact .bindMutually sound this other

/-- By induction on the operations. -/
theorem run_develops (sound : Sound types) (operations : List Operation) (hPermitted : AllPermitted types operations) :
    Develops types (run types operations) := by
  induction operations generalizing types with
  | nil => exact .refl sound
  | cons operation rest ih =>
      have hFirst := apply_develops sound operation hPermitted.1
      exact hFirst.trans (ih hFirst.sound hPermitted.2)

/-- Of two runs in a row the second one is permitted after the first one. -/
theorem allPermitted_append {operations later : List Operation} :
    AllPermitted types (operations ++ later) ↔
      AllPermitted types operations ∧ AllPermitted (run types operations) later := by
  induction operations generalizing types with
  | nil => simp [AllPermitted, run]
  | cons operation rest ih => simp [AllPermitted, run, ih, and_assoc]

end Operation

theorem Sound.empty : Sound {} := ⟨by simp [KeptAlive], by simp⟩

open Operation in
/-- Two values that were bound both ways agree at every later moment, whatever else is done. -/
theorem bound_agree (earlier later : List Operation) (this other : TypeRef)
    (hPermitted : AllPermitted {} (earlier ++ .bindMutually this other :: later)) :
    Agree (run {} (earlier ++ .bindMutually this other :: later)) this other := by
  obtain ⟨hEarlier, hBinding, hLater⟩ := allPermitted_append.mp hPermitted
  have hSound := (run_develops .empty earlier hEarlier).sound
  have hBonded := bonded_bindMutually hSound hBinding.1 hBinding.2
  have hRest := run_develops (Develops.bindMutually hSound this other).sound later hLater
  rw [run, List.foldl_append]
  exact (hRest.bonded hBonded).agree

/-- Two bound cells, each heard by a third one that is heard by the other. What it learns reaches both. -/
theorem bound_agree_triangle :
    let operations : List Operation := [.create .unknown false, .create .short false, .create .unknown false,
      .bind (.cell 2) (.cell 1), .bindMutually (.cell 0) (.cell 1), .bindMutually (.cell 2) (.cell 0),
      .suggest (.cell 1) .char, .create .int true, .bind (.cell 3) (.cell 2)]
    Operation.AllPermitted {} operations ∧ Agree (Operation.run {} operations) (.cell 0) (.cell 1) ∧
      (Operation.run {} operations).typeOf (.cell 1) = .int := by
  have hPermitted : Operation.AllPermitted {} [.create .unknown false, .create .short false, .create .unknown false,
      .bind (.cell 2) (.cell 1), .bindMutually (.cell 0) (.cell 1), .bindMutually (.cell 2) (.cell 0),
      .suggest (.cell 1) .char, .create .int true, .bind (.cell 3) (.cell 2)] := by decide
  exact ⟨hPermitted, bound_agree [.create .unknown false, .create .short false, .create .unknown false,
    .bind (.cell 2) (.cell 1)] _ (.cell 0) (.cell 1) hPermitted, by decide⟩

end Decompiler.TypeCells
