import Decompiler.Proofs.Structure.Arena

/-!
Arenas of statements while they grow. New statements name new statements only, each once at most, and those that are
not named yet wait for it.
-/

namespace Decompiler

open Structure

/-- Statements that stand in an arena from a place on name each other only, each one further down. The pending
ones are among them and wait to be named. Nothing proper is named twice, or named and pending, and nothing is neither
named nor pending. -/
structure Adds (start : Nat) (new : List Structure) (pending : List StructureId) : Prop where
  below : ∀ (place : Nat) (hPlace : place < new.length), ∀ child ∈ new[place].children,
    child = emptyId ∨ (start ≤ child ∧ child < start + place)
  within : ∀ id ∈ pending, id = emptyId ∨ (start ≤ id ∧ id < start + new.length)
  once : (proper (pending ++ new.flatMap children)).Nodup
  complete : ∀ place < new.length, start + place ∈ pending ++ new.flatMap children

namespace Adds

variable {start : Nat} {new more : List Structure} {pending others : List StructureId} {statement : Structure}

theorem none (start : Nat) : Adds start [] [] := ⟨by simp, by simp, by simp [proper], by simp⟩

/-- The place of the empty statement may be named as often as one likes. -/
theorem empty (start : Nat) : Adds start [] [emptyId] := ⟨by simp, by simp, by simp [proper], by simp⟩

/-- What is pending or named lies among the new statements. -/
theorem met (adds : Adds start new pending) {id : StructureId} (hMet : id ∈ pending ++ new.flatMap children) :
    id = emptyId ∨ (start ≤ id ∧ id < start + new.length) := by
  rcases List.mem_append.mp hMet with hPending | hNamed
  · exact adds.within id hPending
  · obtain ⟨statement, hStatement, hChild⟩ := List.mem_flatMap.mp hNamed
    obtain ⟨place, hPlace, rfl⟩ := List.mem_iff_getElem.mp hStatement
    refine (adds.below place hPlace id hChild).imp_right fun ⟨hStart, hBelow⟩ => ⟨hStart, ?_⟩
    exact Nat.lt_of_lt_of_le hBelow (Nat.add_le_add_left hPlace.le start)

theorem perm_named_push (new : List Structure) (statement : Structure) :
    ((new ++ [statement]).flatMap children).Perm (statement.children ++ new.flatMap children) := by
  rw [List.flatMap_append, List.flatMap_singleton]
  exact List.perm_append_comm

/-- A new statement that names all that was pending is pending itself. -/
theorem push (adds : Adds start new statement.children) : Adds start (new ++ [statement]) [start + new.length] where
  below place hPlace child hChild := by
    rcases Nat.lt_or_ge place new.length with hOld | hNew
    · exact adds.below place hOld child (by simpa [List.getElem_append_left hOld] using hChild)
    · obtain rfl : place = new.length := by
        rw [List.length_append, List.length_singleton] at hPlace
        omega
      exact adds.within child (by simpa using hChild)
  within id hId := by
    obtain rfl := List.mem_singleton.mp hId
    exact .inr ⟨Nat.le_add_right _ _, by simp⟩
  once := by
    have hPerm := perm_named_push new statement
    rw [proper_append]
    refine List.nodup_append.mpr ⟨List.Nodup.filter _ (List.nodup_singleton _), ?_, ?_⟩
    · exact (hPerm.filter _).nodup_iff.mpr adds.once
    · rintro a ha b hb rfl
      obtain ⟨hSame, hProper⟩ := mem_proper.mp ha
      obtain rfl := List.mem_singleton.mp hSame
      rcases adds.met (hPerm.mem_iff.mp (mem_proper.mp hb).1) with hEmpty | ⟨-, hBelow⟩
      · exact hProper hEmpty
      · exact Nat.lt_irrefl _ hBelow
  complete place hPlace := by
    rcases Nat.lt_or_ge place new.length with hOld | hNew
    · exact List.mem_append_right _ ((perm_named_push new statement).mem_iff.mpr (adds.complete place hOld))
    · obtain rfl : place = new.length := by
        rw [List.length_append, List.length_singleton] at hPlace
        omega
      exact List.mem_append_left _ (List.mem_singleton_self _)

theorem perm_met_append (pending others : List StructureId) (new more : List Structure) :
    (pending ++ others ++ (new ++ more).flatMap children).Perm
      ((pending ++ new.flatMap children) ++ (others ++ more.flatMap children)) := by
  rw [List.flatMap_append, List.append_assoc, List.append_assoc]
  refine .append_left _ ?_
  rw [← List.append_assoc, ← List.append_assoc]
  exact List.perm_append_comm.append_right _

/-- Statements that are made after others have nothing to do with them. -/
theorem append (adds : Adds start new pending) (later : Adds (start + new.length) more others) :
    Adds start (new ++ more) (pending ++ others) where
  below place hPlace child hChild := by
    rcases Nat.lt_or_ge place new.length with hOld | hNew
    · exact adds.below place hOld child (by simpa [List.getElem_append_left hOld] using hChild)
    · rw [List.getElem_append_right hNew] at hChild
      have hMore : place - new.length < more.length := by
        rw [List.length_append] at hPlace
        omega
      refine (later.below _ hMore child hChild).imp_right fun ⟨hStart, hBelow⟩ => ⟨?_, ?_⟩
      · exact (Nat.le_add_right _ _).trans hStart
      · exact Nat.lt_of_lt_of_le hBelow (by omega)
  within id hId := by
    rw [List.length_append]
    rcases List.mem_append.mp hId with hOld | hNew
    · refine (adds.within id hOld).imp_right fun ⟨hStart, hBelow⟩ => ⟨hStart, ?_⟩
      exact Nat.lt_of_lt_of_le hBelow (by omega)
    · refine (later.within id hNew).imp_right fun ⟨hStart, hBelow⟩ => ⟨?_, ?_⟩
      · exact (Nat.le_add_right _ _).trans hStart
      · exact Nat.lt_of_lt_of_eq hBelow (by omega)
  once := by
    refine ((perm_met_append pending others new more).filter _).nodup_iff.mpr ?_
    change (proper _).Nodup
    rw [proper_append]
    refine List.nodup_append.mpr ⟨adds.once, later.once, ?_⟩
    rintro a ha b hb rfl
    obtain ⟨hFirst, hProper⟩ := mem_proper.mp ha
    have hBelow : a < start + new.length := ((adds.met hFirst).resolve_left hProper).2
    have hAbove : start + new.length ≤ a := ((later.met (mem_proper.mp hb).1).resolve_left hProper).1
    exact Nat.lt_irrefl _ (Nat.lt_of_lt_of_le hBelow hAbove)
  complete place hPlace := by
    refine (perm_met_append pending others new more).mem_iff.mpr ?_
    rcases Nat.lt_or_ge place new.length with hOld | hNew
    · exact List.mem_append_left _ (adds.complete place hOld)
    · rw [List.length_append] at hPlace
      have hMore := later.complete (place - new.length) (by omega)
      rw [show start + new.length + (place - new.length) = start + place by omega] at hMore
      exact List.mem_append_right _ hMore

end Adds

/-- Every proper place of an arena is a root, or some statement names it. -/
def Complete (structures : Array Structure) (roots : List StructureId) : Prop :=
  ∀ id < structures.size, id ≠ emptyId → id ∈ roots ∨ ∃ other, id ∈ (structures.getD other .empty).children

/-- A statement that names none may get lost. -/
theorem Complete.drop {structures : Array Structure} {roots : List StructureId} (complete : Complete structures roots)
    {place : StructureId} (hPlace : (structures.getD place .empty).children = []) :
    Complete (structures.setIfInBounds place .empty) roots := by
  intro id hId hProper
  rw [Array.size_setIfInBounds] at hId
  refine (complete id hId hProper).imp_right fun ⟨other, hNamed⟩ => ⟨other, ?_⟩
  have hOther : place ≠ other := fun hSame => by
    rw [← hSame, hPlace] at hNamed
    cases hNamed
  rwa [Array.getD_eq_getD_getElem?, Array.getElem?_setIfInBounds_ne hOther, ← Array.getD_eq_getD_getElem?]

/-- An arena has grown; the pending statements are new ones that wait to be named. -/
def Grows (before after : Array Structure) (pending : List StructureId) : Prop :=
  ∃ new, after.toList = before.toList ++ new ∧ Adds before.size new pending

theorem size_of_grown {before after : Array Structure} {new : List Structure}
    (hNew : after.toList = before.toList ++ new) : after.size = before.size + new.length := by
  rw [← Array.length_toList, hNew, List.length_append, Array.length_toList]

namespace Grows

variable {before middle after : Array Structure} {pending others : List StructureId} {statement : Structure}

theorem refl (before : Array Structure) : Grows before before [] := ⟨[], by simp, .none _⟩

theorem empty (before : Array Structure) : Grows before before [emptyId] := ⟨[], by simp, .empty _⟩

theorem trans (first : Grows before middle pending) (second : Grows middle after others) :
    Grows before after (pending ++ others) := by
  obtain ⟨new, hNew, adds⟩ := first
  obtain ⟨more, hMore, later⟩ := second
  exact ⟨new ++ more, by rw [hMore, hNew, List.append_assoc], adds.append (size_of_grown hNew ▸ later)⟩

theorem push (grows : Grows before after statement.children) :
    Grows before (after.push statement) [after.size] := by
  obtain ⟨new, hNew, adds⟩ := grows
  exact ⟨new ++ [statement], by simp [hNew], size_of_grown hNew ▸ adds.push⟩

/-- What has grown from the empty statement alone is a forest with the pending statements as roots. -/
theorem isForest (grows : Grows #[.empty] after pending) : IsForest after pending := by
  obtain ⟨new, hNew, adds⟩ := grows
  have hEmpty : children .empty = [] := rfl
  refine ⟨fun id child hChild => ?_, by simpa [hNew, hEmpty] using adds.once⟩
  have hGet : after.getD id .empty = (Structure.empty :: new).getD id .empty := by
    rw [Array.getD_eq_getD_getElem?, List.getD_eq_getElem?_getD, ← Array.getElem?_toList, hNew]
    rfl
  rw [hGet] at hChild
  cases id with
  | zero => simp [hEmpty] at hChild
  | succ place =>
      rw [List.getD_cons_succ, List.getD_eq_getElem?_getD] at hChild
      by_cases hPlace : place < new.length
      · rw [List.getElem?_eq_getElem hPlace, Option.getD_some] at hChild
        refine (adds.below place hPlace child hChild).imp_right fun ⟨_, hBelow⟩ => ?_
        exact Nat.lt_of_lt_of_eq hBelow (Nat.add_comm 1 place)
      · simp [List.getElem?_eq_none (Nat.not_lt.mp hPlace), hEmpty] at hChild

/-- In what has grown from the empty statement alone, every other one is named or pending. -/
theorem complete (grows : Grows #[.empty] after pending) : Complete after pending := by
  intro id hId hProper
  obtain ⟨new, hNew, adds⟩ := grows
  have hSize : after.size = 1 + new.length := size_of_grown hNew
  have hPositive : 0 < id := Nat.pos_of_ne_zero hProper
  have hPlace : id - 1 < new.length := by
    rw [hSize, Nat.add_comm] at hId
    exact Nat.sub_lt_right_of_lt_add hPositive hId
  have hNamed := adds.complete (id - 1) hPlace
  rw [show (#[Structure.empty] : Array Structure).size + (id - 1) = id from Nat.add_sub_cancel' hPositive] at hNamed
  refine (List.mem_append.mp hNamed).imp_right fun hNamed => ?_
  obtain ⟨statement, hStatement, hChild⟩ := List.mem_flatMap.mp hNamed
  have hArena : statement ∈ after.toList := hNew ▸ List.mem_append_right _ hStatement
  obtain ⟨other, hOther, rfl⟩ := List.mem_iff_getElem.mp hArena
  have hInside : other < after.size := by simpa using hOther
  exact ⟨other, by simpa [Array.getD_eq_getD_getElem?, hInside] using hChild⟩

end Grows

end Decompiler
