import Decompiler.Proofs.Structure.Running

/-!
A jump to the next round that ends the body of its loop is dropped. No run changes, as long as no finally block ends in
such a jump: there the jump takes the place of whatever else ended the protected region.
-/

namespace Decompiler

open Structure Running

variable {structures before after : Array Structure} {roots : List StructureId}
  {id child place start follow : StructureId}

/-! ### Places where a body ends -/

/-- Control can be at the end of the body of a loop after the statement, finally blocks apart. -/
inductive AtTail (structures : Array Structure) : StructureId → Prop where
  | body {holder body : StructureId} {loop : BreakableId}
      (hLoop : (structures.getD holder .empty).loopBody? = some (loop, body)) : AtTail structures body
  | follow {id follow : StructureId} (atTail : AtTail structures id)
      (hFollow : (structures.getD id .empty).follow? = some follow) : AtTail structures follow
  | arm {id arm follow : StructureId} (atTail : AtTail structures id) (hArm : arm ∈ (structures.getD id .empty).arms)
      (hFollow : (structures.getD id .empty).follow? = some follow) (hLast : structures.getD follow .empty = .empty) :
      AtTail structures arm

/-- A statement ends where the one at the place does. -/
inductive EndsAt (structures : Array Structure) (start : StructureId) : StructureId → Prop where
  | self : EndsAt structures start start
  | follow {id follow : StructureId} (endsAt : EndsAt structures start id)
      (hFollow : (structures.getD id .empty).follow? = some follow) : EndsAt structures start follow
  | branch {id branch follow : StructureId} (endsAt : EndsAt structures start id)
      (hBranch : branch ∈ (structures.getD id .empty).arms ++ (structures.getD id .empty).finals)
      (hFollow : (structures.getD id .empty).follow? = some follow) (hLast : structures.getD follow .empty = .empty) :
      EndsAt structures start branch

/-- The body of some loop ends at the place. -/
def EndsBody (structures : Array Structure) (place : StructureId) : Prop :=
  ∃ holder loop body, (structures.getD holder .empty).loopBody? = some (loop, body) ∧ EndsAt structures body place

/-- The statement jumps to the next round of the loop around it. -/
def Structure.isRepeat : Structure → Bool
  | .continues _ labeled => !labeled
  | _ => false

/-- The arena is a forest over the empty statement in which no finally block ends in a jump to the next round. -/
structure Omissible (structures : Array Structure) (roots : List StructureId) : Prop where
  forest : IsForest structures roots
  empty : structures.getD emptyId .empty = .empty
  finals : ∀ id, ∀ final ∈ (structures.getD id .empty).finals, ∀ place, EndsAt structures final place →
    (structures.getD place .empty).isRepeat = false

/-! ### What stands inside a statement -/

section Parts

variable {statement : Structure} {loop : BreakableId} {body : StructureId}

theorem body_mem_nested (hBody : statement.loopBody? = some (loop, body)) : body ∈ statement.nested := by
  cases statement <;> simp_all [loopBody?, nested]

theorem parts_eq_nil (hBody : statement.loopBody? = some (loop, body)) : statement.parts = [] := by
  cases statement <;> simp_all [loopBody?, parts, arms, finals, switchArms]

/-- What stands inside a statement that is no loop are its parts. -/
theorem parts_perm (hLoop : statement.loopBody? = none) : statement.parts.Perm statement.nested := by
  cases statement with
  | protect node body catches follow =>
      simp only [parts, arms, finals, switchArms, nested, List.append_nil, List.cons_append, ← List.map_append]
      refine .cons body (.map _ ?_)
      simpa using List.filter_append_perm (fun arm : CatchArm => arm.exception.isSome) catches
  | _ => simp_all [loopBody?, parts, arms, finals, switchArms, nested]

theorem mem_nested_of_mem_parts (hPart : child ∈ statement.parts) : child ∈ statement.nested := by
  cases hLoop : statement.loopBody? with
  | none => exact (parts_perm hLoop).mem_iff.mp hPart
  | some found => exact absurd hPart (parts_eq_nil hLoop ▸ List.not_mem_nil)

end Parts

/-- What a body ends with is the body itself, or it stands inside or after what the body ends with. -/
theorem AtTail.exists_holder (atTail : AtTail structures child) :
    ∃ holder, child ∈ (structures.getD holder .empty).children ∧
      ((∃ loop, (structures.getD holder .empty).loopBody? = some (loop, child)) ∨ AtTail structures holder ∧
        ((structures.getD holder .empty).follow? = some child ∨ child ∈ (structures.getD holder .empty).arms ∧
          ∃ follow, (structures.getD holder .empty).follow? = some follow ∧
            structures.getD follow .empty = .empty)) := by
  cases atTail with
  | body hLoop => exact ⟨_, List.mem_append_left _ (body_mem_nested hLoop), .inl ⟨_, hLoop⟩⟩
  | follow atTail hFollow => exact ⟨_, follow_mem_children hFollow, .inr ⟨atTail, .inl hFollow⟩⟩
  | arm atTail hArm hFollow hLast =>
      have hNested := mem_nested_of_mem_parts (List.mem_append_left _ hArm)
      exact ⟨_, List.mem_append_left _ hNested, .inr ⟨atTail, .inr ⟨hArm, _, hFollow, hLast⟩⟩⟩

namespace IsForest

variable (forest : IsForest structures roots)

include forest

theorem nested_ne_follow (hProper : child ≠ emptyId) (hNested : child ∈ (structures.getD id .empty).nested) :
    (structures.getD id .empty).follow? ≠ some child := by
  intro hFollow
  have hNodup := forest.children_nodup id
  rw [children, proper_append, hFollow] at hNodup
  exact (List.nodup_append.mp hNodup).2.2 child (mem_proper.mpr ⟨hNested, hProper⟩) child
    (mem_proper.mpr ⟨List.mem_singleton_self child, hProper⟩) rfl

theorem parts_nodup (id : StructureId) : (proper (structures.getD id .empty).parts).Nodup := by
  cases hLoop : (structures.getD id .empty).loopBody? with
  | none =>
      have hNodup := forest.children_nodup id
      rw [children, proper_append] at hNodup
      exact ((parts_perm hLoop).filter _).nodup_iff.mpr (List.nodup_append.mp hNodup).1
  | some found => exact parts_eq_nil hLoop ▸ List.nodup_nil

theorem atTail_of_follow (hProper : child ≠ emptyId) (hFollow : (structures.getD id .empty).follow? = some child)
    (atTail : AtTail structures child) : AtTail structures id := by
  obtain ⟨holder, hChild, hHolder⟩ := atTail.exists_holder
  obtain rfl := forest.parent_unique hProper hChild (follow_mem_children hFollow)
  rcases hHolder with ⟨loop, hLoop⟩ | ⟨atTail, -⟩
  · exact absurd hFollow (forest.nested_ne_follow hProper (body_mem_nested hLoop))
  · exact atTail

theorem atTail_of_part (hProper : child ≠ emptyId) (hPart : child ∈ (structures.getD id .empty).parts)
    (atTail : AtTail structures child) : AtTail structures id ∧ child ∈ (structures.getD id .empty).arms ∧
      ∃ follow, (structures.getD id .empty).follow? = some follow ∧ structures.getD follow .empty = .empty := by
  have hNested := mem_nested_of_mem_parts hPart
  obtain ⟨holder, hChild, hHolder⟩ := atTail.exists_holder
  obtain rfl := forest.parent_unique hProper hChild (List.mem_append_left _ hNested)
  rcases hHolder with ⟨loop, hLoop⟩ | ⟨atTail, hFollow | hArm⟩
  · exact absurd hPart (parts_eq_nil hLoop ▸ List.not_mem_nil)
  · exact absurd hFollow (forest.nested_ne_follow hProper hNested)
  · exact ⟨atTail, hArm⟩

/-- Bodies do not end with finally blocks or arms of switches. -/
theorem not_atTail (hProper : child ≠ emptyId)
    (hPart : child ∈ (structures.getD id .empty).finals ++ (structures.getD id .empty).switchArms) :
    ¬AtTail structures child := by
  intro atTail
  have hNodup := forest.parts_nodup id
  rw [parts, proper_append] at hNodup
  obtain ⟨-, hArm, -⟩ := forest.atTail_of_part hProper (List.mem_append_right _ hPart) atTail
  exact (List.nodup_append.mp hNodup).2.2 child (mem_proper.mpr ⟨hArm, hProper⟩) child
    (mem_proper.mpr ⟨hPart, hProper⟩) rfl

/-- Roots stand in no body. -/
theorem root_not_atTail (hRoot : id ∈ roots) (hProper : id ≠ emptyId) : ¬AtTail structures id := fun atTail =>
  have ⟨holder, hChild, _⟩ := atTail.exists_holder
  forest.root_not_child hRoot hProper holder hChild

end IsForest

/-! ### Dropping one jump -/

theorem getD_drop (structures : Array Structure) (place id : StructureId) :
    (structures.setIfInBounds place .empty).getD id .empty =
      if id = place then .empty else structures.getD id .empty := by
  by_cases hSame : id = place
  · subst hSame
    by_cases hInside : id < structures.size <;> simp [Array.getD_eq_getD_getElem?, hInside]
  · simp [Array.getD_eq_getD_getElem?, hSame, Ne.symm hSame]

/-- A statement that does not end with the jump ends where it did. -/
theorem EndsAt.of_drop (hOther : ¬EndsAt structures start place)
    (endsAt : EndsAt (structures.setIfInBounds place .empty) start id) : EndsAt structures start id := by
  induction endsAt with
  | self => exact .self
  | follow _ hFollow ih =>
      rw [getD_drop] at hFollow
      split at hFollow
      · cases hFollow
      · exact .follow ih hFollow
  | branch _ hBranch hFollow hLast ih =>
      rw [getD_drop] at hBranch hFollow hLast
      split at hFollow
      · cases hFollow
      · next hKept =>
          rw [if_neg hKept] at hBranch
          split at hLast
          · next hJump => exact absurd (hJump ▸ .follow ih hFollow) hOther
          · exact .branch ih hBranch hFollow hLast

section Drop

variable (hRepeat : (structures.getD place .empty).isRepeat = true)

include hRepeat

/-- A statement that goes on is no jump. -/
theorem getD_drop_of_follow (hFollow : (structures.getD id .empty).follow? = some follow) :
    (structures.setIfInBounds place .empty).getD id .empty = structures.getD id .empty := by
  rw [getD_drop, if_neg]
  rintro rfl
  cases hStatement : structures.getD id .empty <;> simp_all [isRepeat, follow?]

theorem EndsAt.drop (endsAt : EndsAt structures start id) :
    EndsAt (structures.setIfInBounds place .empty) start id := by
  induction endsAt with
  | self => exact .self
  | follow _ hFollow ih => exact .follow ih (by rwa [getD_drop_of_follow hRepeat hFollow])
  | branch _ hBranch hFollow hLast ih =>
      have hKept := getD_drop_of_follow hRepeat hFollow
      refine .branch ih (hKept ▸ hBranch) (hKept ▸ hFollow) ?_
      rw [getD_drop, hLast, ite_self]

theorem EndsBody.drop (endsBody : EndsBody structures id) : EndsBody (structures.setIfInBounds place .empty) id := by
  obtain ⟨holder, loop, body, hLoop, endsAt⟩ := endsBody
  refine ⟨holder, loop, body, ?_, endsAt.drop hRepeat⟩
  rw [getD_drop, if_neg]
  · exact hLoop
  · rintro rfl
    cases hStatement : structures.getD holder .empty <;> simp_all [isRepeat, loopBody?]

theorem Omissible.drop (omissible : Omissible structures roots) :
    Omissible (structures.setIfInBounds place .empty) roots where
  forest := omissible.forest.drop place
  empty := by rw [getD_drop, omissible.empty, ite_self]
  finals id final hFinal last endsAt := by
    rw [getD_drop] at hFinal
    split at hFinal
    · cases hFinal
    · have hOther : ¬EndsAt structures final place := fun endsAt =>
        Bool.noConfusion (hRepeat.symm.trans (omissible.finals id final hFinal place endsAt))
      rw [getD_drop]
      split
      · rfl
      · exact omissible.finals id final hFinal last (endsAt.of_drop hOther)

/-- Of the jumps that end bodies none ends a finally block. -/
theorem EndsBody.atTail (endsBody : EndsBody structures place) (omissible : Omissible structures roots) :
    AtTail structures place := by
  obtain ⟨holder, loop, body, hLoop, endsAt⟩ := endsBody
  have hWhere {id : StructureId} (endsAt : EndsAt structures body id) : AtTail structures id ∨
      ∃ holder, ∃ final ∈ (structures.getD holder .empty).finals, EndsAt structures final id := by
    induction endsAt with
    | self => exact .inl (.body hLoop)
    | follow _ hFollow ih =>
        exact ih.imp (.follow · hFollow) fun ⟨holder, final, hFinal, endsAt⟩ =>
          ⟨holder, final, hFinal, .follow endsAt hFollow⟩
    | branch _ hBranch hFollow hLast ih =>
        rcases ih with atTail | ⟨holder, final, hFinal, endsAt⟩
        · rcases List.mem_append.mp hBranch with hArm | hFinal
          · exact .inl (.arm atTail hArm hFollow hLast)
          · exact .inr ⟨_, _, hFinal, .self⟩
        · exact .inr ⟨holder, final, hFinal, .branch endsAt hBranch hFollow hLast⟩
  refine (hWhere endsAt).resolve_right fun ⟨holder, final, hFinal, endsAt⟩ => ?_
  exact Bool.noConfusion (hRepeat.symm.trans (omissible.finals holder final hFinal place endsAt))

omit hRepeat in
theorem run_empty (hBefore : before.getD id .empty = .empty) (hAfter : after.getD id .empty = .empty) (world : World)
    (fuel : Nat) : run world before fuel id = run world after fuel id := by
  cases fuel with
  | zero => rfl
  | succ fuel =>
      rw [run, run, hBefore, hAfter]
      rfl

/-- A jump that ends the body of its loop is as good as none. -/
theorem alike_drop (omissible : Omissible structures roots) (atTail : AtTail structures place) (world : World)
    (fuel : Nat) (id : StructureId) : Alike (AtTail structures id) (run world structures fuel id)
      (run world (structures.setIfInBounds place .empty) fuel id) := by
  induction fuel generalizing id with
  | zero => exact .refl _
  | succ fuel ih =>
      -- The empty statement is the only one that several name.
      have hChild {child : StructureId} {tail : Prop} (hTail : child ≠ emptyId → AtTail structures child → tail) :
          Alike tail (run world structures fuel child)
            (run world (structures.setIfInBounds place .empty) fuel child) := by
        by_cases hProper : child = emptyId
        · rw [hProper, run_empty omissible.empty (omissible.drop hRepeat).empty]
          exact .refl _
        · exact (ih child).weaken (hTail hProper)
      rw [run, run, getD_drop]
      split
      · next hPlace =>
          subst hPlace
          cases hStatement : structures.getD id .empty <;> simp [isRepeat, hStatement] at hRepeat
          subst hRepeat
          exact .pure (.jump atTail)
      · have forest := omissible.forest
        cases fuel with
        | zero => exact .refl _
        | succ fuel =>
            refine alike_runOf (fuel + 1) (fun loop body _ => hChild fun _ _ => trivial)
              (fun arm hArm => hChild fun hProper hTail =>
                have hPart := forest.atTail_of_part hProper (List.mem_append_left _ hArm) hTail
                And.intro hPart.1 hPart.2.2)
              (fun part hPart => hChild fun hProper => forest.not_atTail hProper hPart)
              (fun follow hFollow => hChild fun hProper => forest.atTail_of_follow hProper hFollow)
              fun ⟨hTail, follow, hFollow, hEmpty⟩ => ⟨hTail, fun other hOther => ?_⟩
            obtain rfl := Option.some.inj (hFollow.symm.trans hOther)
            rw [run, getD_drop, hEmpty, ite_self]
            rfl

end Drop

/-! ### Dropping all of them -/

/-- Some jumps have been dropped, and the runs of the roots are those of before. -/
structure Omits (roots : List StructureId) (before after : Array Structure) : Prop where
  omissible : Omissible after roots
  endsBody : ∀ id, EndsBody before id → EndsBody after id
  run_eq : ∀ world fuel, ∀ root ∈ roots, run world after fuel root = run world before fuel root

namespace Omits

theorem refl (omissible : Omissible structures roots) : Omits roots structures structures :=
  ⟨omissible, fun _ endsBody => endsBody, fun _ _ _ _ => rfl⟩

theorem trans {middle : Array Structure} (first : Omits roots before middle) (second : Omits roots middle after) :
    Omits roots before after where
  omissible := second.omissible
  endsBody id endsBody := second.endsBody id (first.endsBody id endsBody)
  run_eq world fuel root hRoot := (second.run_eq world fuel root hRoot).trans (first.run_eq world fuel root hRoot)

theorem drop (omissible : Omissible structures roots) (endsBody : EndsBody structures place)
    (hRepeat : (structures.getD place .empty).isRepeat = true) :
    Omits roots structures (structures.setIfInBounds place .empty) where
  omissible := omissible.drop hRepeat
  endsBody _ endsBody := endsBody.drop hRepeat
  run_eq world fuel root hRoot := by
    by_cases hProper : root = emptyId
    · rw [hProper, run_empty omissible.empty (omissible.drop hRepeat).empty]
    · have alike := alike_drop hRepeat omissible (endsBody.atTail hRepeat omissible) world fuel root
      exact (alike.weaken (omissible.forest.root_not_atTail hRoot hProper)).eq.symm

/-- Steps that omit jumps where bodies end do so together. -/
theorem foldl {step : Array Structure → StructureId → Array Structure} {ids : List StructureId}
    (hStep : ∀ structures id, Omissible structures roots → EndsBody structures id →
      Omits roots structures (step structures id))
    (omissible : Omissible structures roots) (hEnds : ∀ id ∈ ids, EndsBody structures id) :
    Omits roots structures (ids.foldl step structures) := by
  induction ids generalizing structures with
  | nil => exact .refl omissible
  | cons id ids ih =>
      obtain ⟨hFirst, hRest⟩ := List.forall_mem_cons.mp hEnds
      have omits := hStep structures id omissible hFirst
      exact omits.trans (ih omits.omissible fun id hId => omits.endsBody id (hRest id hId))

end Omits

namespace Folding

theorem omits_omitContinue (id : BreakableId) (fuel : Nat) (start : StructureId)
    (omissible : Omissible structures roots) (endsBody : EndsBody structures start) :
    Omits roots structures (omitContinue id fuel start structures) := by
  induction fuel generalizing structures start with
  | zero => exact .refl omissible
  | succ fuel ih =>
      obtain ⟨holder, loop, body, hLoop, endsAt⟩ := endsBody
      have hFollow {follow : StructureId} (hFollow : (structures.getD start .empty).follow? = some follow) :
          Omits roots structures (omitContinue id fuel follow structures) :=
        ih follow omissible ⟨holder, loop, body, hLoop, .follow endsAt hFollow⟩
      have hArms {arms : List StructureId} {follow : StructureId}
          (hFollow : (structures.getD start .empty).follow? = some follow)
          (hLast : (structures.getD follow .empty).isEmpty = true)
          (hArms : arms ⊆ (structures.getD start .empty).arms ++ (structures.getD start .empty).finals) :
          Omits roots structures
            (arms.foldl (fun structures arm => omitContinue id fuel arm structures) structures) := by
        have hLast : structures.getD follow .empty = .empty := by
          cases hStatement : structures.getD follow .empty <;> simp_all [isEmpty]
        exact .foldl (fun _ arm omissible endsBody => ih arm omissible endsBody) omissible fun arm hArm =>
          ⟨holder, loop, body, hLoop, .branch endsAt (hArms hArm) hFollow hLast⟩
      rw [omitContinue]
      dsimp only
      split
      · next hStart =>
          split
          · exact .drop omissible ⟨holder, loop, body, hLoop, endsAt⟩ (by rw [hStart]; rfl)
          · exact .refl omissible
      · next hStart =>
          split
          · next hLast => exact hArms (by rw [hStart]; rfl) hLast (by rw [hStart]; simp [arms, finals])
          · exact hFollow (by rw [hStart]; rfl)
      · next node region catches follow hStart =>
          split
          · next hLast =>
              refine hArms (by rw [hStart]; rfl) hLast (hStart ▸ ?_)
              have hNoLoop : (protect node region catches follow).loopBody? = none := rfl
              simpa [parts, switchArms, nested] using (parts_perm hNoLoop).symm.subset
          · exact hFollow (by rw [hStart]; rfl)
      · split
        · next hNext => exact hFollow hNext
        · exact .refl omissible

theorem omits_omitContinues (omissible : Omissible structures roots) :
    Omits roots structures (omitContinues structures) := by
  rw [omitContinues]
  generalize List.range structures.size = loops
  induction loops generalizing structures with
  | nil => exact .refl omissible
  | cons loop loops ih =>
      rw [List.foldl_cons]
      split
      · next id body hLoop =>
          have omits := omits_omitContinue id structures.size body omissible ⟨loop, id, body, hLoop, .self⟩
          exact omits.trans (ih omits.omissible)
      · exact ih omissible

/-- Without the jumps that end bodies every run is the same, whatever it does and also if it does not end. -/
theorem run_omitContinues (omissible : Omissible structures roots) (world : World) (fuel : Nat) {root : StructureId}
    (hRoot : root ∈ roots) : run world (omitContinues structures) fuel root = run world structures fuel root :=
  (omits_omitContinues omissible).run_eq world fuel root hRoot

/-- A loop without a test whose body leaves it. A finally block begins the next round instead, until its jump is
dropped. -/
def overruled : Array Structure :=
  #[.empty, .breaks 0 false, .continues 0 false, .protect 0 1 [{ exception := none, caught? := none, body := 2 }] 0,
    .forever 0 0 3 0]

/-- A world in which tests do not hold and nothing is thrown. -/
def quiet : World := { answer := fun _ => .chooses 0, isInstance := fun _ _ => false }

example : ((run quiet overruled 9 4).run []).1 = .unfinished ∧
    ((run quiet (omitContinues overruled) 9 4).run []).1 = .completes := by
  decide

end Folding

end Decompiler
