import Decompiler.Proofs.Operand.Targets

/-!
Replacing a target everywhere in an operand. A walk changes an operand and then goes into what the operand has become,
and the change of a condition goes into the conditions it joins by itself, so that a nested condition is changed more
than once. The outcome is the change of every condition once, from the inside out: no condition that a walk meets names
the target any more, and nothing else is different.
-/

namespace Decompiler.Operand

/-! ### Changes from the outside in -/

/-- Changes the direct parts of an operand, each wherever it stands. -/
def mapParts (operand : Operand) (change : (part : Operand) → part ∈ operand.children → Operand) : Operand :=
  { operand with
    kind :=
      match hKind : operand.kind with
      | .binary left operator right =>
        .binary (change left (by simp [children, hKind])) operator (change right (by simp [children, hKind]))
      | .unary operator value => .unary operator (change value (by simp [children, hKind]))
      | .length value => .length (change value (by simp [children, hKind]))
      | .cast type value => .cast type (change value (by simp [children, hKind]))
      | .instanceOf value type => .instanceOf (change value (by simp [children, hKind])) type
      | .zeroOrOne value => .zeroOrOne (change value (by simp [children, hKind]))
      | .throws value => .throws (change value (by simp [children, hKind]))
      | .yields value => .yields (change value (by simp [children, hKind]))
      | .assign target operator value =>
        .assign (change target (by simp [children, hKind])) operator (change value (by simp [children, hKind]))
      | .condition test =>
        .condition { test with
          left := change test.left (by simp [children, hKind])
          right := change test.right (by simp [children, hKind]) }
      | .call owner name descriptor receiver arguments special =>
        .call owner name descriptor (receiver.pmap change (by simp +contextual [children, hKind]))
          (arguments.pmap change (by simp +contextual [children, hKind])) special
      | .construct owner descriptor kind arguments =>
        .construct owner descriptor kind (arguments.pmap change (by simp [children, hKind]))
      | .field owner name receiver => .field owner name (receiver.pmap change (by simp [children, hKind]))
      | .methodReference owner name receiver =>
        .methodReference owner name (receiver.pmap change (by simp [children, hKind]))
      | .element array index =>
        .element (change array (by simp [children, hKind])) (change index (by simp [children, hKind]))
      | .newArray element dimensions initializers =>
        .newArray element (dimensions.pmap change (by simp +contextual [children, hKind]))
          (initializers.pmap (fun values hValues => values.pmap change hValues)
            (by simp +contextual [children, hKind]))
      | .ternary test onTrue onFalse =>
        .ternary (change test (by simp [children, hKind])) (change onTrue (by simp [children, hKind]))
          (change onFalse (by simp [children, hKind]))
      | .lambda owner name descriptor interface captures =>
        .lambda owner name descriptor interface (captures.pmap change (by simp [children, hKind]))
      | .returns value => .returns (value.pmap change (by simp [children, hKind]))
      | .asserts test message =>
        .asserts (change test (by simp [children, hKind])) (message.pmap change (by simp +contextual [children, hKind]))
      | .number _ | .character _ | .string _ | .boolean _ | .null | .this | .classLiteral _
      | .uninitialized _ | .switch _ | .localVariable .. | .declaration _ => operand.kind }

variable {operand part inner : Operand}

/-- The walk of a part is shorter than that of the whole, so walks into parts end. -/
theorem length_walk_child (hPart : part ∈ operand.children) : part.walk.length < operand.walk.length := by
  rw [walk_eq operand, walkParts_eq_flatMap, List.length_cons, Nat.lt_succ_iff, List.flatMap]
  exact (List.sublist_flatten_of_mem (List.mem_map_of_mem hPart)).length_le

/-- Changes an operand, and then everything inside what it has become. The change may make no operand larger. -/
def visit (change : Operand → Operand) (hChange : ∀ operand, (change operand).walk.length ≤ operand.walk.length)
    (operand : Operand) : Operand :=
  (change operand).mapParts fun part _ => visit change hChange part
termination_by operand.walk.length
decreasing_by exact Nat.lt_of_lt_of_le (length_walk_child ‹_›) (hChange operand)

/-! ### What becomes of an operand -/

/-- An operand and what becomes of it when one target is replaced in all conditions: a condition names the new target
where it named the old one, and everything else of it stays; of any other operand only the parts may change. -/
inductive Replaced (old : NodeId) (new : Option NodeId) : Operand → Operand → Prop where
  | condition {operand : Operand} {test : Condition} {left right : Operand} (hKind : operand.kind = .condition test)
      (hLeft : Replaced old new test.left left) (hRight : Replaced old new test.right right) :
      Replaced old new operand { operand with
        kind := .condition { test with
          left, right
          onTrue := if test.onTrue = some old then new else test.onTrue
          onFalse := if test.onFalse = some old then new else test.onFalse } }
  | other {operand : Operand} (hKind : operand.condition? = none)
      (change : (part : Operand) → part ∈ operand.children → Operand)
      (hParts : ∀ part hPart, Replaced old new part (change part hPart)) :
      Replaced old new operand (operand.mapParts change)

/-! ### Parts that are changed -/

/-- Only what a change makes of the parts matters. -/
theorem mapParts_congr {first second : (part : Operand) → part ∈ operand.children → Operand}
    (hSame : ∀ part hPart, first part hPart = second part hPart) :
    operand.mapParts first = operand.mapParts second := by
  rw [show first = second from funext fun part => funext fun hPart => hSame part hPart]

/-- The parts afterwards are the changed parts, in their order. -/
theorem children_mapParts (operand : Operand) (change : (part : Operand) → part ∈ operand.children → Operand) :
    (operand.mapParts change).children = operand.children.pmap change fun _ hPart => hPart := by
  obtain ⟨_, _, _, _, _, kind⟩ := operand
  cases kind
  case newArray _ dimensions values =>
    cases values with
    | none =>
        have hParts : dimensions ++ (none : Option (List Operand)).getD [] = dimensions := List.append_nil _
        change dimensions.pmap change _ ++ [] = _
        simp only [List.append_nil, children, hParts]
    | some values => exact (List.pmap_append _).symm
  case call _ _ _ value _ _ | field _ _ value | methodReference _ _ value | returns value | asserts _ value =>
    cases value <;> rfl
  all_goals rfl

/-- No change of parts makes a condition of an operand. -/
theorem condition?_mapParts (hKind : operand.condition? = none)
    (change : (part : Operand) → part ∈ operand.children → Operand) : (operand.mapParts change).condition? = none := by
  obtain ⟨_, _, _, _, _, kind⟩ := operand
  cases kind
  case condition => cases hKind
  all_goals rfl

/-- Rewriting below an operand is a change of its parts. -/
theorem rewriteParts_eq_mapParts (change : Operand → Operand) (operand : Operand) :
    { operand with kind := operand.kind.rewriteParts change } = operand.mapParts fun part _ => rewrite change part := by
  obtain ⟨_, _, _, _, _, kind⟩ := operand
  cases kind
  case condition test => cases test; rfl
  case newArray _ _ values => cases values <;> simp [mapParts, OperandKind.rewriteParts]
  case call _ _ _ value _ _ | field _ _ value | methodReference _ _ value | returns value | asserts _ value =>
    cases value <;> simp [mapParts, OperandKind.rewriteParts]
  all_goals simp [mapParts, OperandKind.rewriteParts]

/-! ### The outside-in change -/

variable (old : NodeId) (new : Option NodeId)

/-- A condition changes its own targets and those of the conditions it joins. -/
theorem retarget_condition {test : Condition} (hKind : operand.kind = .condition test) :
    operand.retarget old new = { operand with
      kind := .condition { test with
        left := test.left.retarget old new
        right := test.right.retarget old new
        onTrue := if test.onTrue = some old then new else test.onTrue
        onFalse := if test.onFalse = some old then new else test.onFalse } } := by
  obtain ⟨_, _, _, _, _, kind⟩ := operand
  obtain rfl : kind = _ := hKind
  cases test
  rw [retarget, Condition.retarget]

theorem children_condition {test : Condition} (hKind : operand.kind = .condition test) :
    operand.children = [test.left, test.right] := by
  rw [children, hKind]

theorem forall_children_condition {test : Condition} (hKind : operand.kind = .condition test)
    {property : Operand → Prop} :
    (∀ part ∈ operand.children, property part) ↔ property test.left ∧ property test.right := by
  simp [children_condition hKind]

theorem walk_condition {test : Condition} (hKind : operand.kind = .condition test) :
    operand.walk = operand :: (test.left.walk ++ test.right.walk) := by
  rw [walk_eq, walkParts_eq_flatMap, children_condition hKind, List.flatMap_cons, List.flatMap_cons, List.flatMap_nil,
    List.append_nil]

/-- Other targets make an operand no larger, so the walk goes on into something smaller. -/
theorem length_walk_retarget (operand : Operand) : (operand.retarget old new).walk.length = operand.walk.length := by
  induction operand using induction_children with
  | step operand ih =>
      cases hTest : operand.condition? with
      | none => rw [retarget_eq_self hTest old new]
      | some test =>
          have hKind := condition?_eq_some hTest
          obtain ⟨hLeft, hRight⟩ := (forall_children_condition hKind).mp ih
          rw [retarget_condition old new hKind, walk_condition hKind, walk_condition rfl]
          rw [List.length_cons, List.length_cons, List.length_append, List.length_append, hLeft, hRight]

/-- Redirecting a condition redirects its sides and changes its own targets. -/
theorem redirect_condition {test : Condition} (hKind : operand.kind = .condition test) :
    operand.redirect old new = { operand with
      kind := .condition { test with
        left := test.left.redirect old new
        right := test.right.redirect old new
        onTrue := if test.onTrue = some old then new else test.onTrue
        onFalse := if test.onFalse = some old then new else test.onFalse } } := by
  obtain ⟨_, _, _, _, _, kind⟩ := operand
  obtain rfl : kind = _ := hKind
  cases test
  rfl

/-- Only the parts of an operand that is no condition are redirected. -/
theorem redirect_other (hTest : operand.condition? = none) :
    operand.redirect old new = operand.mapParts fun part _ => part.redirect old new := by
  rw [redirect, rewrite_eq, rewriteParts_eq_mapParts, mapCondition_eq_self]
  · rfl
  · intro test hMapped
    rw [condition?_mapParts hTest] at hMapped
    cases hMapped

/-- Where the target is replaced in a condition already, there is nothing left to replace. -/
theorem redirect_retarget (operand : Operand) :
    (operand.retarget old new).redirect old new = operand.redirect old new := by
  induction operand using induction_children with
  | step operand ih =>
      cases hTest : operand.condition? with
      | none => rw [retarget_eq_self hTest old new]
      | some test =>
          have hKind := condition?_eq_some hTest
          have hTwice (target : Option NodeId) :
              (if (if target = some old then new else target) = some old then new
                else if target = some old then new else target) = if target = some old then new else target := by
            by_cases hOld : target = some old <;> simp [hOld]
          obtain ⟨hLeft, hRight⟩ := (forall_children_condition hKind).mp ih
          rw [retarget_condition old new hKind, redirect_condition old new hKind, redirect_condition old new rfl]
          simp only [hLeft, hRight, hTwice]

/-- Redirecting changes an operand with the conditions it joins, and then redirects the parts of what it has become. -/
theorem redirect_eq_mapParts (operand : Operand) :
    operand.redirect old new = (operand.retarget old new).mapParts fun part _ => part.redirect old new := by
  cases hTest : operand.condition? with
  | none => rw [retarget_eq_self hTest old new, redirect_other old new hTest]
  | some test =>
      have hKind := condition?_eq_some hTest
      rw [retarget_condition old new hKind, redirect_condition old new hKind, mapParts]
      simp only [redirect_retarget]

/-- By induction on the walk: what the walk leaves behind is the operand redirected once. -/
theorem visit_retarget (operand : Operand) :
    operand.visit (retarget old new) (fun operand => Nat.le_of_eq (length_walk_retarget old new operand)) =
      operand.redirect old new := by
  induction operand using visit.induct (retarget old new)
    (fun operand => Nat.le_of_eq (length_walk_retarget old new operand)) with
  | case1 operand ih =>
      rw [visit, redirect_eq_mapParts]
      exact mapParts_congr ih

/-- By induction on the parts: redirecting replaces targets of conditions and nothing else. -/
theorem replaced_redirect (operand : Operand) : Replaced old new operand (operand.redirect old new) := by
  induction operand using induction_children with
  | step operand ih =>
      cases hTest : operand.condition? with
      | none =>
          rw [redirect_other old new hTest]
          exact .other hTest _ ih
      | some test =>
          have hKind := condition?_eq_some hTest
          obtain ⟨hLeft, hRight⟩ := (forall_children_condition hKind).mp ih
          rw [redirect_condition old new hKind]
          exact .condition hKind hLeft hRight

/-! ### Targets that are left -/

variable {old new} {node : NodeId}

/-- The operand itself is a condition that names the node. -/
def Names (operand : Operand) (node : NodeId) : Prop :=
  ∃ test, operand.condition? = some test ∧ (test.onTrue = some node ∨ test.onFalse = some node)

/-- A condition targets what it names or what a condition that it joins targets. -/
theorem targets_condition {test : Condition} (hKind : operand.kind = .condition test) :
    operand.targets node = (test.onTrue == some node || test.onFalse == some node || test.left.targets node ||
      test.right.targets node) := by
  obtain ⟨_, _, _, _, _, kind⟩ := operand
  obtain rfl : kind = _ := hKind
  cases test
  rw [targets, Condition.targets]

theorem targets_other (hTest : operand.condition? = none) : operand.targets node = false := by
  obtain ⟨_, _, _, _, _, kind⟩ := operand
  cases kind
  case condition => cases hTest
  all_goals rw [targets]; simp

/-- What is met inside of what is met is met. -/
theorem mem_walk_trans {nested : Operand} (hNested : nested ∈ inner.walk) (hInner : inner ∈ operand.walk) :
    nested ∈ operand.walk := by
  induction operand using induction_children with
  | step operand ih =>
      rw [walk_eq, List.mem_cons, mem_walkParts] at hInner
      rcases hInner with rfl | ⟨part, hPart, hInner⟩
      · exact hNested
      · exact mem_walk_of_child hPart (ih part hPart hInner)

/-- A target that was replaced is the old one no more. -/
theorem replaced_ne (hNew : new ≠ some old) (target : Option NodeId) :
    (if target = some old then new else target) ≠ some old := by
  split
  · exact hNew
  · assumption

/-- A condition targets a node only if it names the node itself or some condition inside it does. -/
theorem targets_eq_false (hNames : ∀ inner ∈ operand.walk, ¬inner.Names node) : operand.targets node = false := by
  induction operand using induction_children with
  | step operand ih =>
      have hParts : ∀ part ∈ operand.children, part.targets node = false := fun part hPart =>
        ih part hPart fun inner hInner => hNames inner (mem_walk_of_child hPart hInner)
      cases hTest : operand.condition? with
      | none => exact targets_other hTest
      | some test =>
          have hKind := condition?_eq_some hTest
          have hSelf : ¬(test.onTrue = some node ∨ test.onFalse = some node) := fun hNamed =>
            hNames operand (self_mem_walk operand) ⟨test, hTest, hNamed⟩
          obtain ⟨hLeft, hRight⟩ := (forall_children_condition hKind).mp hParts
          simpa [targets_condition hKind, hLeft, hRight] using hSelf

/-- In what becomes of an operand no condition names the target that was replaced. -/
theorem Replaced.not_names {before after : Operand} (replaced : Replaced old new before after)
    (hNew : new ≠ some old) : ∀ inner ∈ after.walk, ¬inner.Names old := by
  induction replaced with
  | condition hKind _ _ ihLeft ihRight =>
      intro inner hInner
      rw [walk_condition rfl, List.mem_cons, List.mem_append] at hInner
      rcases hInner with rfl | hLeft | hRight
      · rintro ⟨test, ⟨⟩, hTrue | hFalse⟩
        · exact replaced_ne hNew _ hTrue
        · exact replaced_ne hNew _ hFalse
      · exact ihLeft inner hLeft
      · exact ihRight inner hRight
  | other hTest change _ ih =>
      intro inner hInner
      rw [walk_eq, List.mem_cons, mem_walkParts, children_mapParts] at hInner
      rcases hInner with rfl | ⟨part, hPart, hInner⟩
      · rintro ⟨test, hMapped, -⟩
        rw [condition?_mapParts hTest] at hMapped
        cases hMapped
      · obtain ⟨before, hBefore, rfl⟩ := List.mem_pmap.mp hPart
        exact ih before hBefore inner hInner

/-- Retargeting misses no condition. A walk that replaces a target in every condition it meets, and in the conditions
that these join, ends with the operand that the graph goes on with. No condition that a walk meets in it targets the
node that was replaced, the other targets are as they were, and so is everything else. -/
theorem visit_retarget_exact (old : NodeId) {new : Option NodeId} (hNew : new ≠ some old) (operand : Operand) :
    let after := operand.visit (retarget old new) fun operand => Nat.le_of_eq (length_walk_retarget old new operand)
    after = operand.redirect old new ∧
      (∀ inner ∈ after.walk, inner.targets old = false) ∧ Replaced old new operand after := by
  intro after
  have hAfter : after = operand.redirect old new := visit_retarget old new operand
  have hReplaced : Replaced old new operand after := hAfter ▸ replaced_redirect old new operand
  refine ⟨hAfter, fun inner hInner => targets_eq_false fun nested hNested => ?_, hReplaced⟩
  exact hReplaced.not_names hNew nested (mem_walk_trans hNested hInner)

/-- Two conditions joined by a third, inside an argument of a message: the target is named on every level, and one of
the joined conditions has another target besides. -/
def namedThrice : Operand :=
  let plain (kind : OperandKind) : Operand := { id := 0, type := .known .unknown, kind }
  let compare (onTrue onFalse : Option NodeId) : Operand :=
    plain (.condition { left := plain (.localVariable 0 false), operator := .lt
                        right := plain (.localVariable 1 false), onTrue, onFalse, grouped := false })
  let joined := plain (.condition { left := compare (some 5) (some 9), operator := .and, right := compare none (some 5)
                                    onTrue := some 6, onFalse := some 5, grouped := true })
  plain (.asserts (plain .this) (some (plain (.call "A" "f" "(I)I" none [plain (.zeroOrOne joined)] false))))

/-- Every level of the joined conditions gets the new target, and the other target stays. -/
theorem visit_retarget_exact_nested : some 7 ≠ some 5 ∧ namedThrice.mentionsTarget 5 = true ∧
    let after := namedThrice.visit (retarget 5 (some 7)) fun operand =>
      Nat.le_of_eq (length_walk_retarget 5 (some 7) operand)
    after.mentionsTarget 5 = false ∧ after.mentionsTarget 9 = true ∧ Replaced 5 (some 7) namedThrice after := by
  have hNew : (some 7 : Option NodeId) ≠ some 5 := by decide
  obtain ⟨hAfter, hTargets, hReplaced⟩ := visit_retarget_exact 5 hNew namedThrice
  refine ⟨hNew, by decide, ?_, ?_, hReplaced⟩
  · exact List.any_eq_false.mpr fun inner hInner => by simp [hTargets inner hInner]
  · rw [hAfter]
    decide

end Decompiler.Operand
