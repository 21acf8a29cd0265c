import Decompiler.History

/-!
The history of a list of pushes, latest first. What a ring remembers of it are its first values, and the
history of instructions satisfies a template if the codes at its beginning do.
-/

namespace Decompiler

namespace Ring

variable {α : Type} {capacity : Nat} {ring : Ring α capacity}

@[simp] theorem size_push (ring : Ring α capacity) (value : α) :
    (ring.push value).size = min (ring.size + 1) capacity := rfl

/-- The place that a push writes comes last when the places are counted back from the next one. -/
theorem place_zero {head : Nat} (hHead : head < capacity) :
    ((head + 1) % capacity + capacity - 1 - 0) % capacity = head := by
  rcases Nat.lt_or_ge (head + 1) capacity with hInside | hEnd
  · rw [Nat.mod_eq_of_lt hInside, show head + 1 + capacity - 1 - 0 = head + capacity by omega,
      Nat.add_mod_right, Nat.mod_eq_of_lt hHead]
  · rw [show head + 1 = capacity by omega, Nat.mod_self, show 0 + capacity - 1 - 0 = head by omega,
      Nat.mod_eq_of_lt hHead]

/-- Before a push the same place was counted one step nearer. -/
theorem place_succ {head back : Nat} (hHead : head < capacity) (hBack : back + 1 < capacity) :
    ((head + 1) % capacity + capacity - 1 - (back + 1)) % capacity = (head + capacity - 1 - back) % capacity := by
  rcases Nat.lt_or_ge (head + 1) capacity with hInside | hEnd
  · rw [Nat.mod_eq_of_lt hInside, show head + 1 + capacity - 1 - (back + 1) = head + capacity - 1 - back by omega]
  · rw [show head + 1 = capacity by omega, Nat.mod_self,
      show head + capacity - 1 - back = (0 + capacity - 1 - (back + 1)) + capacity by omega, Nat.add_mod_right]

/-- The places further back are not the one that is written. -/
theorem place_ne {head back : Nat} (hHead : head < capacity) (hBack : back + 1 < capacity) :
    head ≠ (head + capacity - 1 - back) % capacity := by
  intro hSame
  rcases Nat.lt_or_ge (head + capacity - 1 - back) capacity with hBelow | hAbove
  · rw [Nat.mod_eq_of_lt hBelow] at hSame
    omega
  · rw [Nat.mod_eq_sub_mod hAbove, Nat.mod_eq_of_lt (by omega)] at hSame
    omega

@[simp] theorem recent?_push_zero (ring : Ring α capacity) (value : α) : (ring.push value).recent? 0 = some value := by
  have hPositive := ring.positive
  have hSize : ¬min (ring.size + 1) capacity ≤ 0 := by omega
  rw [recent?, size_push, if_neg hSize]
  change getElem (ring.slots.set ring.head (some value))
    (((ring.head.val + 1) % capacity + capacity - 1 - 0) % capacity) _ = _
  simp only [place_zero ring.head.isLt, Vector.getElem_set_self]

/-- A push moves the other values one step away; the oldest one leaves a full ring. -/
theorem recent?_push_succ (hSize : ring.size ≤ capacity) (value : α) (back : Nat) :
    (ring.push value).recent? (back + 1) = if back + 1 < capacity then ring.recent? back else none := by
  by_cases hBack : back + 1 < capacity
  · rw [recent?, recent?, size_push, if_pos hBack]
    by_cases hOld : ring.size ≤ back
    · rw [if_pos (by omega), if_pos hOld]
    · rw [if_neg (by omega), if_neg hOld]
      change getElem (ring.slots.set ring.head (some value))
          (((ring.head.val + 1) % capacity + capacity - 1 - (back + 1)) % capacity) _ =
        getElem ring.slots ((ring.head.val + capacity - 1 - back) % capacity) _
      simp only [place_succ ring.head.isLt hBack]
      exact Vector.getElem_set_ne _ _ (place_ne ring.head.isLt hBack)
  · rw [recent?, size_push, if_pos (by omega), if_neg hBack]

/-- The histories of a unit remember ten values. -/
theorem ten_pos : 0 < 10 := Nat.succ_pos 9

/-- The ring after the pushes of a list, whose first value was pushed last. -/
def ofList (positive : 0 < capacity) (values : List α) : Ring α capacity :=
  values.foldr (fun value ring => ring.push value) (.empty positive)

theorem size_ofList (positive : 0 < capacity) (values : List α) :
    (ofList positive values).size = min values.length capacity := by
  induction values with
  | nil => exact (Nat.zero_min capacity).symm
  | cons value values ih =>
      change min ((ofList positive values).size + 1) capacity = _
      rw [ih, List.length_cons]
      omega

/-- What a ring remembers of a list of pushes. -/
theorem recent?_ofList (positive : 0 < capacity) (values : List α) {back : Nat} (hBack : back < capacity) :
    (ofList positive values).recent? back = values[back]? := by
  induction values generalizing back with
  | nil => exact if_pos (Nat.zero_le back)
  | cons value values ih =>
      have hSize : (ofList positive values).size ≤ capacity := by
        rw [size_ofList]
        exact Nat.min_le_right _ _
      cases back with
      | zero => exact recent?_push_zero _ value
      | succ back =>
          rw [List.getElem?_cons_succ, ← ih (by omega)]
          exact (recent?_push_succ hSize value back).trans (if_pos hBack)

end Ring

namespace InstructionHistory

/-- The history of a list of codes, latest first. -/
def ofCodes (codes : List Opcode) : InstructionHistory := { codes := .ofList Ring.ten_pos codes }

theorem recent?_ofCodes (codes : List Opcode) {back : Nat} (hBack : back < 10) :
    (ofCodes codes).recent? back = codes[back]? := Ring.recent?_ofList _ codes hBack

/-- A template that the history satisfies accepts the codes at the beginning of the list, entry by entry from its
end. -/
theorem accepts_of_endsInTemplate {codes : List Opcode} {template : List Pattern}
    (hEnds : (ofCodes codes).endsInTemplate template = true) {pattern : Pattern} {back : Nat}
    (hPattern : template.reverse[back]? = some pattern) : ∃ op, codes[back]? = some op ∧ pattern.accepts op = true := by
  simp only [endsInTemplate, endsWith, Bool.and_eq_true, decide_eq_true_eq, List.all_eq_true] at hEnds
  obtain ⟨⟨-, hSize⟩, hAll⟩ := hEnds
  have hLength : template.length ≤ 10 := by
    rw [ofCodes, Ring.size_ofList] at hSize
    omega
  have hBack : back < template.length := by
    simpa using (List.getElem?_eq_some_iff.mp hPattern).1
  have hEntry := hAll (pattern, back) (List.mk_mem_zipIdx_iff_getElem?.mpr hPattern)
  simp only [Nat.add_zero, recent?_ofCodes codes (show back < 10 by omega)] at hEntry
  simpa [Option.any_eq_true] using hEntry

/-- A template is not satisfied if one of its entries does not accept the code at its place. -/
theorem endsInTemplate_eq_false {codes : List Opcode} {template : List Pattern} {pattern : Pattern} {back : Nat}
    (hPattern : template.reverse[back]? = some pattern)
    (hCode : ∀ op, codes[back]? = some op → pattern.accepts op = false) :
    (ofCodes codes).endsInTemplate template = false := by
  rw [Bool.eq_false_iff]
  intro hEnds
  obtain ⟨op, hFound, hAccepts⟩ := accepts_of_endsInTemplate hEnds hPattern
  rw [hCode op hFound] at hAccepts
  cases hAccepts

/-- A template of two entries speaks of the latest code and the one before it. -/
theorem endsInTemplate_pair (latest : Opcode) (codes : List Opcode) (before last : Pattern) :
    (ofCodes (latest :: codes)).endsInTemplate [before, last] =
      (last.accepts latest && codes.head?.any before.accepts) := by
  have hLatest : (ofCodes (latest :: codes)).recent? 0 = some latest := recent?_ofCodes _ (by omega)
  have hBefore : (ofCodes (latest :: codes)).recent? 1 = codes.head? := by
    rw [List.head?_eq_getElem?]
    exact recent?_ofCodes (latest :: codes) (by omega)
  cases codes with
  | nil => simp [endsInTemplate, endsWith, ofCodes, Ring.size_ofList]
  | cons op codes =>
      have hSize : 2 ≤ (ofCodes (latest :: op :: codes)).codes.size := by
        rw [ofCodes, Ring.size_ofList, List.length_cons, List.length_cons]
        omega
      simp [endsInTemplate, endsWith, hLatest, hBefore, hSize]

/-- Where no object is created, none was created right before. -/
theorem endsInTemplate_new {codes : List Opcode} (hNew : Opcode.new ∉ codes) (latest : Opcode) (last : Pattern) :
    (ofCodes (latest :: codes)).endsInTemplate [Opcode.new, last] = false := by
  have hBefore : codes.head?.any (Pattern.op .new).accepts = false := by
    rw [Option.any_eq_false]
    intro before hHead
    exact beq_false_of_ne fun hFound => hNew (hFound ▸ List.mem_of_mem_head? hHead)
  rw [endsInTemplate_pair, hBefore, Bool.and_false]

end InstructionHistory

namespace SlotHistory

/-- The history of a list of slots, latest first. -/
def ofSlots (slots : List UInt16) : SlotHistory := { slots := .ofList Ring.ten_pos slots }

theorem repeats_ofSlots (latest : UInt16) (slots : List UInt16) :
    (ofSlots (latest :: slots)).repeats = (slots.head? == some latest) := by
  have hLatest : (ofSlots (latest :: slots)).recent? 0 = some latest :=
    Ring.recent?_ofList (Nat.succ_pos 9) _ (by omega)
  have hBefore : (ofSlots (latest :: slots)).recent? 1 = slots.head? := by
    rw [List.head?_eq_getElem?]
    exact Ring.recent?_ofList (Nat.succ_pos 9) (latest :: slots) (by omega)
  rw [repeats, hLatest, hBefore]
  cases slots with
  | nil => rfl
  | cons before slots => simp [Bool.beq_eq_decide_eq, eq_comm]

end SlotHistory

end Decompiler
