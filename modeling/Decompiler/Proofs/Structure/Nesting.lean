import Mathlib.Data.List.Nodup
import Mathlib.Data.List.Perm.Subperm
import Mathlib.Data.List.Range
import Decompiler.Structure.Nesting

/-!
Pieces that hold other pieces. If no piece is held at two places, then what lies inside a piece that does not
lie inside itself is met once, however deep it lies; and since a way inwards meets no holder twice, it ends.
-/

namespace Decompiler

variable {α : Type}

/-- The pieces that lie a number of steps inside a piece, each as often as there are ways to it. -/
def level (holds : α → List α) (root : α) : Nat → List α
  | 0 => [root]
  | depth + 1 => (level holds root depth).flatMap holds

/-- All that lies inside a piece down to a depth, the piece included. -/
def within (holds : α → List α) (root : α) (depth : Nat) : List α :=
  (List.range depth).flatMap (level holds root)

/-- Of the pieces that may be met, none is held at two places. -/
structure Unshared (holds : α → List α) (met : α → Prop) : Prop where
  closed : ∀ {piece}, met piece → ∀ inside ∈ holds piece, met inside
  once : ∀ {piece}, met piece → (holds piece).Nodup
  holder_unique : ∀ {piece first second}, met first → met second → piece ∈ holds first → piece ∈ holds second →
    first = second

namespace Unshared

variable {holds : α → List α} {met : α → Prop} {root : α}

theorem met_of_mem_level (unshared : Unshared holds met) (hMet : met root) (depth : Nat) :
    ∀ piece ∈ level holds root depth, met piece := by
  induction depth with
  | zero => exact fun piece hPiece => List.mem_singleton.mp hPiece ▸ hMet
  | succ depth ih =>
      intro piece hPiece
      obtain ⟨holder, hHolder, hHeld⟩ := List.mem_flatMap.mp hPiece
      exact unshared.closed (ih holder hHolder) piece hHeld

theorem level_nodup (unshared : Unshared holds met) (hMet : met root) (depth : Nat) :
    (level holds root depth).Nodup := by
  induction depth with
  | zero => exact List.nodup_singleton root
  | succ depth ih =>
      have hLevel := unshared.met_of_mem_level hMet depth
      refine List.nodup_flatMap.mpr ⟨fun piece hPiece => unshared.once (hLevel piece hPiece), ?_⟩
      refine ih.imp_of_mem fun hFirst hSecond hApart piece hHeld hHeldToo => ?_
      exact hApart (unshared.holder_unique (hLevel _ hFirst) (hLevel _ hSecond) hHeld hHeldToo)

/-- A piece lies at one depth only. -/
theorem level_disjoint (unshared : Unshared holds met) (hMet : met root)
    (hRoot : ∀ depth, root ∉ level holds root (depth + 1)) {first second : Nat} (hLess : first < second) :
    (level holds root first).Disjoint (level holds root second) := by
  intro piece hFirst hSecond
  obtain ⟨second, rfl⟩ := Nat.exists_eq_add_one_of_ne_zero (Nat.ne_of_gt (Nat.zero_lt_of_lt hLess))
  induction first generalizing second piece with
  | zero =>
      obtain rfl := List.mem_singleton.mp hFirst
      exact hRoot second hSecond
  | succ first ih =>
      obtain ⟨holder, hHolder, hHeld⟩ := List.mem_flatMap.mp hFirst
      obtain ⟨other, hOther, hHeldToo⟩ := List.mem_flatMap.mp hSecond
      obtain rfl := unshared.holder_unique (unshared.met_of_mem_level hMet _ _ hHolder)
        (unshared.met_of_mem_level hMet _ _ hOther) hHeld hHeldToo
      have hLess := Nat.lt_of_succ_lt_succ hLess
      obtain ⟨second, rfl⟩ := Nat.exists_eq_add_one_of_ne_zero (Nat.ne_of_gt (Nat.zero_lt_of_lt hLess))
      exact ih hHolder second hLess hOther

/-- What lies inside a piece is met once. -/
theorem within_nodup (unshared : Unshared holds met) (hMet : met root)
    (hRoot : ∀ depth, root ∉ level holds root (depth + 1)) (depth : Nat) : (within holds root depth).Nodup := by
  refine List.nodup_flatMap.mpr ⟨fun depth _ => unshared.level_nodup hMet depth, ?_⟩
  exact List.pairwise_lt_range.imp fun hLess => unshared.level_disjoint hMet hRoot hLess

end Unshared

/-! ### Ends -/

/-- Every way into a piece ends in fewer steps, as a statement. -/
def Ends (holds : α → List α) : Nat → α → Prop
  | 0, _ => False
  | bound + 1, piece => ∀ inside ∈ holds piece, Ends holds bound inside

variable {holds : α → List α} {root piece : α} {depth bound : Nat}

theorem endsWithin_iff : endsWithin holds bound piece = true ↔ Ends holds bound piece := by
  induction bound generalizing piece with
  | zero => exact iff_of_false Bool.false_ne_true id
  | succ bound ih => simp [endsWithin, Ends, ih]

theorem mem_level_of_holder {inside : α} (hPiece : piece ∈ level holds root depth)
    (hInside : inside ∈ holds piece) : inside ∈ level holds root (depth + 1) :=
  List.mem_flatMap.mpr ⟨piece, hPiece, hInside⟩

theorem Ends.mono {more : Nat} (hEnds : Ends holds bound piece) (hLe : bound ≤ more) : Ends holds more piece := by
  induction bound generalizing more piece with
  | zero => exact hEnds.elim
  | succ bound ih =>
      obtain ⟨more, rfl⟩ := Nat.exists_eq_add_one_of_ne_zero (Nat.ne_of_gt (Nat.zero_lt_of_lt hLe))
      exact fun inside hInside => ih (hEnds inside hInside) (Nat.le_of_succ_le_succ hLe)

theorem Ends.of_level_eq_nil (hEmpty : level holds root (depth + bound) = [])
    (hPiece : piece ∈ level holds root depth) : Ends holds bound piece := by
  induction bound generalizing depth piece with
  | zero =>
      rw [Nat.add_zero] at hEmpty
      exact List.not_mem_nil (hEmpty ▸ hPiece)
  | succ bound ih =>
      intro inside hInside
      have hNext : level holds root (depth + 1 + bound) = [] := by rwa [Nat.add_right_comm, Nat.add_assoc]
      exact ih hNext (mem_level_of_holder hPiece hInside)

theorem Ends.of_mem_level (hEnds : Ends holds (depth + bound) root) (hPiece : piece ∈ level holds root depth) :
    Ends holds bound piece := by
  induction depth generalizing bound piece with
  | zero => exact List.mem_singleton.mp hPiece ▸ Nat.zero_add bound ▸ hEnds
  | succ depth ih =>
      obtain ⟨holder, hHolder, hHeld⟩ := List.mem_flatMap.mp hPiece
      rw [Nat.add_right_comm, Nat.add_assoc] at hEnds
      exact ih hEnds hHolder piece hHeld

/-- All ways end where nothing lies further inwards. -/
theorem ends_iff_level_eq_nil : Ends holds bound root ↔ level holds root bound = [] := by
  refine ⟨fun hEnds => List.eq_nil_iff_forall_not_mem.mpr fun piece hPiece => ?_, fun hEmpty => ?_⟩
  · exact Ends.of_mem_level (Nat.add_zero bound ▸ hEnds) hPiece
  · have hRoot : root ∈ level holds root 0 := List.mem_singleton_self root
    exact .of_level_eq_nil ((Nat.zero_add bound).symm ▸ hEmpty) hRoot

/-- The longest way into a piece takes a new holder with each step. -/
theorem Ends.exists_holders (hEnds : Ends holds (bound + 1) piece) (hLong : ¬Ends holds bound piece) :
    ∃ pieces : List α, pieces.length = bound ∧ pieces.Nodup ∧
      ∀ other ∈ pieces, holds other ≠ [] ∧ Ends holds (bound + 1) other := by
  induction bound generalizing piece with
  | zero => exact ⟨[], rfl, .nil, fun _ hOther => absurd hOther List.not_mem_nil⟩
  | succ bound ih =>
      simp only [Ends, not_forall] at hLong
      obtain ⟨inside, hInside, hInsideLong⟩ := hLong
      obtain ⟨pieces, hLength, hNodup, hPieces⟩ := ih (hEnds inside hInside) hInsideLong
      refine ⟨piece :: pieces, congrArg (· + 1) hLength, List.nodup_cons.mpr ⟨fun hPiece => ?_, hNodup⟩, ?_⟩
      · exact hInsideLong ((hPieces piece hPiece).2 inside hInside)
      · rintro other (_ | ⟨_, hOther⟩)
        · exact ⟨List.ne_nil_of_mem hInside, hEnds⟩
        · exact (hPieces other hOther).imp_right fun hEnds => hEnds.mono (Nat.le_succ _)

/-- Ways that end are not longer than there are holders. -/
theorem Ends.of_holders {holders : List α} (hEnds : Ends holds bound piece)
    (hHolders : ∀ piece, holds piece ≠ [] → piece ∈ holders) : Ends holds (holders.length + 1) piece := by
  induction bound with
  | zero => exact hEnds.elim
  | succ bound ih =>
      by_cases hShort : Ends holds bound piece
      · exact ih hShort
      · obtain ⟨pieces, hLength, hNodup, hPieces⟩ := hEnds.exists_holders hShort
        have hLe := (List.subperm_of_subset hNodup fun other hOther => hHolders other (hPieces other hOther).1).length_le
        exact hEnds.mono (Nat.succ_le_succ (hLength ▸ hLe))

theorem level_eq_nil_of_le (hEmpty : level holds root depth = []) (hLe : depth ≤ bound) :
    level holds root bound = [] := by
  induction bound with
  | zero => exact Nat.le_zero.mp hLe ▸ hEmpty
  | succ bound ih =>
      rcases Nat.lt_or_eq_of_le hLe with hLess | rfl
      · rw [level, ih (Nat.le_of_lt_succ hLess), List.flatMap_nil]
      · exact hEmpty

/-- Ways into a piece end if there are finitely many holders: each depth takes another one. -/
theorem Unshared.level_eq_nil {met : α → Prop} (unshared : Unshared holds met) (hMet : met root)
    (hRoot : ∀ depth, root ∉ level holds root (depth + 1)) {holders : List α}
    (hHolders : ∀ piece, holds piece ≠ [] → piece ∈ holders) : level holds root (holders.length + 1) = [] := by
  by_contra hDeep
  have hHolder : ∀ depth, depth < holders.length + 1 → ∃ piece ∈ level holds root depth, holds piece ≠ [] := by
    intro depth hDepth
    by_contra hNone
    have hEmpty : level holds root (depth + 1) = [] := List.flatMap_eq_nil_iff.mpr fun piece hPiece => by
      by_contra hHolds
      exact hNone ⟨piece, hPiece, hHolds⟩
    exact hDeep (level_eq_nil_of_le hEmpty hDepth)
  have : Nonempty α := ⟨root⟩
  choose! holder hLevel hHolds using hHolder
  have hNodup : ((List.range (holders.length + 1)).map holder).Nodup := by
    refine List.pairwise_map.mpr (List.pairwise_lt_range.imp_of_mem fun hFirst hSecond hLess hSame => ?_)
    refine unshared.level_disjoint hMet hRoot hLess (hLevel _ (List.mem_range.mp hFirst)) ?_
    exact hSame ▸ hLevel _ (List.mem_range.mp hSecond)
  have hSubset : (List.range (holders.length + 1)).map holder ⊆ holders := by
    intro piece hPiece
    obtain ⟨depth, hDepth, rfl⟩ := List.mem_map.mp hPiece
    exact hHolders _ (hHolds depth (List.mem_range.mp hDepth))
  have hLength := (List.subperm_of_subset hNodup hSubset).length_le
  rw [List.length_map, List.length_range] at hLength
  exact Nat.not_succ_le_self _ hLength

/-- Nothing new is met further down than the ways lead. -/
theorem within_eq_of_le (hEmpty : level holds root depth = []) (hLe : depth ≤ bound) :
    within holds root bound = within holds root depth := by
  induction bound with
  | zero => rw [Nat.le_zero.mp hLe]
  | succ bound ih =>
      rcases Nat.lt_or_eq_of_le hLe with hLess | rfl
      · have hLe := Nat.le_of_lt_succ hLess
        rw [within, List.range_succ, List.flatMap_append, List.flatMap_singleton, level_eq_nil_of_le hEmpty hLe,
          List.append_nil]
        exact ih hLe
      · rfl

end Decompiler
