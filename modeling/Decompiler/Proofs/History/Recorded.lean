import Decompiler.Proofs.History.Recent
import Mathlib.Data.List.Forall2

/-!
What is remembered of everything that was recorded, oldest first. A ring holds the end of the list of its pushes, as
much of it as there is room for, and templates are decided on the end of the list of recorded codes.
-/

namespace Decompiler

/-! ### Lists read place by place -/

/-- Looking a list up place by place gives its front. -/
theorem filterMap_getElem?_range {α : Type} (values : List α) {count : Nat} (hCount : count ≤ values.length) :
    (List.range count).filterMap (values[·]?) = values.take count := by
  induction count with
  | zero => rfl
  | succ count ih =>
      have hInside : values[count]? = some values[count] := List.getElem?_eq_getElem hCount
      rw [List.range_succ, List.filterMap_append, ih (by omega), List.take_add_one, hInside]
      simp [hInside]

/-- Two lists are related position by position if every place of the first one has its counterpart in the second. -/
theorem forall₂_take_iff {α β : Type} {relation : α → β → Prop} (entries : List α) (values : List β) :
    List.Forall₂ relation entries (values.take entries.length) ↔
      ∀ (place : Nat) (entry : α), entries[place]? = some entry →
        ∃ value, values[place]? = some value ∧ relation entry value := by
  induction entries generalizing values with
  | nil => simp
  | cons first entries ih =>
      cases values with
      | nil =>
          constructor
          · rintro ⟨⟩
          · intro hEvery
            obtain ⟨_, hNone, -⟩ := hEvery 0 first rfl
            cases hNone
      | cons value values =>
          rw [List.length_cons, List.take_succ_cons, List.forall₂_cons, ih]
          constructor
          · rintro ⟨hFirst, hRest⟩ place entry hEntry
            cases place with
            | zero => exact ⟨value, rfl, Option.some.inj hEntry ▸ hFirst⟩
            | succ place => exact hRest place entry hEntry
          · intro hEvery
            obtain ⟨_, ⟨⟩, hFirst⟩ := hEvery 0 first rfl
            exact ⟨hFirst, fun place entry hEntry => hEvery (place + 1) entry hEntry⟩

/-! ### The ring -/

namespace Ring

variable {α : Type} {capacity : Nat}

/-- A ring after some pushes is the ring of the list of them, latest first. -/
theorem foldl_push (positive : 0 < capacity) (pushes : List α) :
    pushes.foldl push (empty positive) = ofList positive pushes.reverse := by
  rw [ofList, List.foldr_reverse]

/-- A ring is as full as it has room, or as there were pushes. -/
theorem size_foldl_push (positive : 0 < capacity) (pushes : List α) :
    (pushes.foldl push (empty positive)).size = min capacity pushes.length := by
  rw [foldl_push, size_ofList, List.length_reverse, Nat.min_comm]

/-- The values within reach are the last pushes, counted from the end. -/
theorem recent?_foldl_push_of_lt (positive : 0 < capacity) (pushes : List α) {back : Nat} (hBack : back < capacity) :
    (pushes.foldl push (empty positive)).recent? back = pushes.reverse[back]? := by
  rw [foldl_push, recent?_ofList positive _ hBack]

/-- Each value within reach is looked up in the list of all pushes, from its end. -/
theorem recent?_foldl_push (positive : 0 < capacity) (pushes : List α) (back : Nat) :
    (pushes.foldl push (empty positive)).recent? back =
      if back < min capacity pushes.length then pushes[pushes.length - 1 - back]? else none := by
  by_cases hBack : back < min capacity pushes.length
  · rw [if_pos hBack, recent?_foldl_push_of_lt positive pushes (by omega), List.getElem?_reverse (by omega)]
  · rw [if_neg hBack, recent?, size_foldl_push, if_pos (by omega)]

/-- What a ring lists is the end of the list of all pushes. -/
theorem toList_foldl_push (positive : 0 < capacity) (pushes : List α) :
    (pushes.foldl push (empty positive)).toList = pushes.drop (pushes.length - min capacity pushes.length) := by
  have hCount : min capacity pushes.length ≤ pushes.reverse.length := by
    rw [List.length_reverse]
    exact Nat.min_le_right _ _
  have hRecent : ∀ back ∈ List.range (min capacity pushes.length),
      (pushes.foldl push (empty positive)).recent? back = pushes.reverse[back]? := fun back hBack =>
    recent?_foldl_push_of_lt positive pushes (by rw [List.mem_range] at hBack; omega)
  rw [toList, size_foldl_push, List.filterMap_reverse, List.filterMap_congr hRecent,
    filterMap_getElem?_range _ hCount, List.reverse_take, List.reverse_reverse, List.length_reverse]

end Ring

/-! ### Templates -/

namespace InstructionHistory

variable {template : List Pattern} {skipped : Nat}

/-- The codes satisfy the template, position by position. -/
def Satisfies (codes : List Opcode) (template : List Pattern) : Prop :=
  List.Forall₂ (fun pattern op => pattern.accepts op = true) template codes

instance (codes : List Opcode) (template : List Pattern) : Decidable (Satisfies codes template) :=
  inferInstanceAs (Decidable (List.Forall₂ _ template codes))

/-- The history keeps its codes in a ring. -/
theorem codes_foldl_record (history : InstructionHistory) (codes : List Opcode) :
    (codes.foldl record history).codes = codes.foldl Ring.push history.codes := by
  induction codes generalizing history with
  | nil => rfl
  | cons op codes ih => exact ih (history.record op)

/-- The history has room for ten codes. -/
theorem size_foldl_record (codes : List Opcode) : (codes.foldl record empty).codes.size = min 10 codes.length := by
  rw [codes_foldl_record]
  exact Ring.size_foldl_push _ codes

/-- The latest ten codes are within reach. -/
theorem recent?_foldl_record (codes : List Opcode) {back : Nat} (hBack : back < 10) :
    (codes.foldl record empty).recent? back = codes.reverse[back]? := by
  rw [recent?, codes_foldl_record]
  exact Ring.recent?_foldl_push_of_lt _ codes hBack

/-- The end of a list of codes satisfies a template if the codes do that stand opposite its entries, both counted from
the end. -/
theorem satisfies_drop_iff (codes : List Opcode) (hCodes : template.length ≤ codes.length) :
    Satisfies (codes.drop (codes.length - template.length)) template ↔
      ∀ (back : Nat) (pattern : Pattern), template.reverse[back]? = some pattern →
        ∃ op, codes.reverse[back]? = some op ∧ pattern.accepts op = true := by
  have hTake : (codes.drop (codes.length - template.length)).reverse = codes.reverse.take template.reverse.length := by
    rw [List.reverse_drop, List.length_reverse]
    exact congrArg codes.reverse.take (by omega)
  rw [Satisfies, ← List.forall₂_reverse_iff, hTake, forall₂_take_iff]

/-- A template is decided on what was recorded as long as the history reaches back far enough. -/
theorem endsWith_iff (codes : List Opcode) (hRoom : template.length + skipped ≤ 10) :
    (codes.foldl record empty).endsWith template skipped = true ↔
      ∀ (back : Nat) (pattern : Pattern), template.reverse[back]? = some pattern →
        ∃ op, codes.reverse[back + skipped]? = some op ∧ pattern.accepts op = true := by
  have hEntry (back : Nat) (pattern : Pattern) (hPattern : template.reverse[back]? = some pattern) :
      ((codes.foldl record empty).recent? (back + skipped)).any pattern.accepts = true ↔
        ∃ op, codes.reverse[back + skipped]? = some op ∧ pattern.accepts op = true := by
    have hBack : back < template.reverse.length := (List.getElem?_eq_some_iff.mp hPattern).1
    rw [List.length_reverse] at hBack
    rw [recent?_foldl_record codes (by omega), Option.any_eq_true]
  rw [endsWith, List.all_eq_true]
  constructor
  · intro hAll back pattern hPattern
    exact (hEntry back pattern hPattern).mp (hAll (pattern, back) (List.mk_mem_zipIdx_iff_getElem?.mpr hPattern))
  · rintro hEvery ⟨pattern, back⟩ hMember
    have hPattern := List.mk_mem_zipIdx_iff_getElem?.mp hMember
    exact (hEntry back pattern hPattern).mpr (hEvery back pattern hPattern)

/-- A template is found at the end of all recorded codes, if it fits the room there is. -/
theorem endsInTemplate_iff (codes : List Opcode) (hTemplate : template ≠ []) :
    (codes.foldl record empty).endsInTemplate template = true ↔
      template.length ≤ 10 ∧ template.length ≤ codes.length ∧
        Satisfies (codes.drop (codes.length - template.length)) template := by
  have hSome : (!template.isEmpty) = true := by simpa using hTemplate
  rw [endsInTemplate, size_foldl_record, hSome, Bool.true_and, Bool.and_eq_true, decide_eq_true_eq, Nat.le_min,
    and_assoc]
  refine and_congr_right fun hRoom => and_congr_right fun hCodes => ?_
  rw [endsWith_iff codes hRoom, satisfies_drop_iff codes hCodes]
  rfl

/-- A template is found before the latest code, which takes one place of the room. -/
theorem precededBy_iff (codes : List Opcode) (template : List Pattern) :
    (codes.foldl record empty).precededBy template = true ↔
      template.length + 1 ≤ 10 ∧ template.length + 1 ≤ codes.length ∧
        Satisfies (codes.dropLast.drop (codes.length - 1 - template.length)) template := by
  rw [precededBy, size_foldl_record, Bool.and_eq_true, decide_eq_true_eq, Nat.le_min, and_assoc]
  refine and_congr_right fun hRoom => and_congr_right fun hCodes => ?_
  have hBefore : template.length ≤ codes.dropLast.length := by
    rw [List.length_dropLast]
    omega
  rw [endsWith_iff codes hRoom, ← List.length_dropLast, satisfies_drop_iff codes.dropLast hBefore]
  simp only [← List.tail_reverse, List.getElem?_tail]

end InstructionHistory

/-- The history is the real history. After any pushes a ring of any capacity gives back the value that was pushed so
many pushes before the last one if it is among the last ones that there is room for, and stores exactly these. After
any codes were recorded, a template is satisfied exactly if it is no longer than the history and there were codes
enough, the last of which satisfy it position by position, or the last ones before the latest. -/
theorem recorded_exact {α : Type} {capacity : Nat} (positive : 0 < capacity) (pushes : List α) (codes : List Opcode)
    {template : List Pattern} (hTemplate : template ≠ []) :
    ((∀ back, (pushes.foldl Ring.push (.empty positive)).recent? back =
        if back < min capacity pushes.length then pushes[pushes.length - 1 - back]? else none) ∧
      (pushes.foldl Ring.push (.empty positive)).toList = pushes.drop (pushes.length - min capacity pushes.length)) ∧
    ((codes.foldl InstructionHistory.record .empty).endsInTemplate template = true ↔
      template.length ≤ 10 ∧ template.length ≤ codes.length ∧
        InstructionHistory.Satisfies (codes.drop (codes.length - template.length)) template) ∧
    ((codes.foldl InstructionHistory.record .empty).precededBy template = true ↔
      template.length + 1 ≤ 10 ∧ template.length + 1 ≤ codes.length ∧
        InstructionHistory.Satisfies (codes.dropLast.drop (codes.length - 1 - template.length)) template) :=
  ⟨⟨Ring.recent?_foldl_push positive pushes, Ring.toList_foldl_push positive pushes⟩,
    InstructionHistory.endsInTemplate_iff codes hTemplate, InstructionHistory.precededBy_iff codes template⟩

/-- A ring of three after five pushes, and the longest template that can be found before the latest code, after more
codes than the history has room for. -/
theorem recorded_exact_wrapped :
    let ring : Ring Nat 3 := [1, 2, 3, 4, 5].foldl Ring.push (.empty (by decide))
    let codes := List.replicate 4 Opcode.nop ++ List.replicate 9 Opcode.iload ++ [Opcode.iadd]
    let template := List.replicate 9 (Pattern.category .load)
    0 < 3 ∧ template ≠ [] ∧ ring.recent? 2 = some 3 ∧ ring.recent? 3 = none ∧ ring.toList = [3, 4, 5] ∧
      (codes.foldl InstructionHistory.record .empty).precededBy template = true ∧
      ¬(codes.foldl InstructionHistory.record .empty).endsInTemplate template = true := by
  intro ring codes template
  have hTemplate : template ≠ [] := by decide
  obtain ⟨⟨hRecent, hList⟩, hEnds, hPreceded⟩ := recorded_exact (show 0 < 3 by decide) [1, 2, 3, 4, 5] codes hTemplate
  exact ⟨by decide, hTemplate, hRecent 2, hRecent 3, hList, hPreceded.mpr (by decide),
    fun hMatch => absurd (hEnds.mp hMatch) (by decide)⟩

end Decompiler
