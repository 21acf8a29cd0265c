import Decompiler.Proofs.Operand.Walk
import Decompiler.Structure.Iteration
import Mathlib.Data.List.Nodup
import Mathlib.Data.List.Perm.Subperm

/-!
What is known of a loop that is taken for one over elements. The locals that only carry the iteration occur in the
statements that are dropped and nowhere else, so no statement that stays refers to a local without a value.
-/

namespace Decompiler

namespace Operand

variable {operand part inner : Operand} {id : VariableId}

/-- What a part refers to, the whole refers to. -/
theorem references_of_child (hPart : part ∈ operand.children) (hReferences : part.references id = true) :
    operand.references id = true := by
  obtain ⟨inner, hInner, hMentions⟩ := List.any_eq_true.mp hReferences
  exact List.any_eq_true.mpr ⟨inner, mem_walk_of_child hPart hInner, hMentions⟩

/-- Reading a local refers to it. -/
theorem references_of_asLocal? (hLocal : operand.asLocal? = some id) : operand.references id = true := by
  refine List.any_eq_true.mpr ⟨operand, by simp [walk_eq], ?_⟩
  unfold asLocal? at hLocal
  split at hLocal
  · next hKind =>
      cases hLocal
      simp [mentions, hKind]
  · cases hLocal

end Operand

namespace Iteration

open Operand

variable {graph : Graph} {symbols : Symbols} {header body previous source : NodeId} {iteration : Iteration}
  {id : VariableId}

/-! ### Uses and their places -/

/-- The operand at a place on the stack of a node. -/
def at? (graph : Graph) (place : NodeId × Nat) : Option Operand := (graph.node place.1).stack[place.2]?

/-- An operand of a live node refers to the local. -/
def Occurs (graph : Graph) (id : VariableId) (place : NodeId × Nat) : Prop :=
  place.1 ∈ graph.order ∧ ∃ operand, at? graph place = some operand ∧ operand.references id = true

/-- The places of the operands that refer to the local. -/
def places (graph : Graph) (id : VariableId) : List (NodeId × Nat) :=
  graph.order.flatMap fun node =>
    ((graph.node node).stack.zipIdx.filter fun entry => entry.1.references id).map fun entry => (node, entry.2)

/-- The places that are counted are those where the local occurs. -/
theorem mem_places {place : NodeId × Nat} : place ∈ places graph id ↔ Occurs graph id place := by
  obtain ⟨node, place⟩ := place
  simp only [places, Occurs, at?, List.mem_flatMap, List.mem_map, List.mem_filter, Prod.exists,
    List.mem_zipIdx_iff_getElem?, Prod.mk.injEq]
  constructor
  · rintro ⟨_, hLive, operand, _, ⟨hPlace, hReferences⟩, rfl, rfl⟩
    exact ⟨hLive, operand, hPlace, hReferences⟩
  · rintro ⟨hLive, operand, hPlace, hReferences⟩
    exact ⟨node, hLive, operand, place, ⟨hPlace, hReferences⟩, rfl, rfl⟩

/-- There are as many places as uses. -/
theorem length_places (graph : Graph) (id : VariableId) : (places graph id).length = uses graph id := by
  have hNode (stack : List Operand) :
      (stack.zipIdx.filter fun entry => entry.1.references id).length = stack.countP (·.references id) := by
    have hCounted : (stack.zipIdx.map Prod.fst).countP (·.references id) =
        stack.zipIdx.countP fun entry => entry.1.references id := List.countP_map
    rw [← List.countP_eq_length_filter, ← hCounted, List.zipIdx_map_fst]
  rw [places, uses, List.length_flatMap, List.countP_flatMap]
  simp only [List.length_map, hNode, Function.comp_def]

/-- The local occurs at the given places only. -/
def Confined (graph : Graph) (id : VariableId) (known : List (NodeId × Nat)) : Prop :=
  ∀ place, Occurs graph id place → place ∈ known

/-- If as many places are known as there are uses, there are no others. -/
theorem confined_of_uses {known : List (NodeId × Nat)} (hNodup : known.Nodup)
    (hKnown : ∀ place ∈ known, Occurs graph id place) (hUses : uses graph id = known.length) :
    Confined graph id known := by
  have hSubset : known ⊆ places graph id := fun place hPlace => mem_places.mpr (hKnown place hPlace)
  have hLength : (places graph id).length ≤ known.length := Nat.le_of_eq ((length_places graph id).trans hUses)
  have hPerm := (List.subperm_of_subset hNodup hSubset).perm_of_length_le hLength
  exact fun place occurs => hPerm.symm.subset (mem_places.mpr occurs)

/-! ### The statements of an iteration -/

section Statements

variable {operand value element : Operand} {isElement : Operand → Bool} {name : String}

/-- What the protocol takes for an assignment is a plain one to a local. -/
theorem assignment?_eq_some (hAssigned : assignment? operand = some (id, value)) :
    ∃ target, operand.kind = .assign target .assign value ∧ target.asLocal? = some id := by
  unfold assignment? at hAssigned
  split at hAssigned
  · next target assigned hKind =>
      simp only [Option.bind_eq_bind, Option.bind_eq_some_iff, Option.pure_def, Option.some.injEq, Prod.mk.injEq]
        at hAssigned
      obtain ⟨_, -, local', hLocal, rfl, rfl⟩ := hAssigned
      exact ⟨target, hKind, hLocal⟩
  · cases hAssigned

/-- What the protocol takes for the element is assigned, with a cast or without. -/
theorem elementOf?_eq_some (hElement : elementOf? isElement operand = some element) :
    ∃ target value inner, operand.kind = .assign target .assign value ∧ isElement inner = true ∧
      (value = inner ∨ ∃ type, value.kind = .cast type inner) := by
  unfold elementOf? at hElement
  split at hElement
  · next target value hKind =>
      extract_lets inner at hElement
      have hInner : isElement inner = true := by
        split at hElement
        · split at hElement
          · next hHolds => exact (Bool.and_eq_true_iff.mp hHolds).2
          · cases hElement
        · cases hElement
      have hPart : value = inner ∨ ∃ type, value.kind = .cast type inner := by
        rcases hValue : value.kind <;> simp only [inner, hValue, true_or]
        exact .inr ⟨_, rfl⟩
      exact ⟨target, value, inner, hKind, hInner, hPart⟩
  · cases hElement

/-- A call of the name on the local, without arguments. -/
theorem isCallOn_eq_true (hCall : isCallOn name id operand = true) :
    ∃ owner descriptor special receiver, operand.kind = .call owner name descriptor (some receiver) [] special ∧
      receiver.asLocal? = some id := by
  unfold isCallOn at hCall
  split at hCall
  · next owner called descriptor receiver special hKind =>
      simp only [Bool.and_eq_true, beq_iff_eq] at hCall
      obtain ⟨rfl, hLocal⟩ := hCall
      exact ⟨owner, descriptor, special, receiver, hKind, hLocal⟩
  · cases hCall

theorem references_of_isCallOn (hCall : isCallOn name id operand = true) : operand.references id = true := by
  obtain ⟨_, _, _, receiver, hKind, hReceiver⟩ := isCallOn_eq_true hCall
  exact references_of_child (by simp [children, hKind]) (references_of_asLocal? hReceiver)

theorem references_of_elementOf? (hElement : elementOf? isElement operand = some element)
    (hReferences : ∀ inner, isElement inner = true → inner.references id = true) : operand.references id = true := by
  obtain ⟨target, value, inner, hKind, hInner, hPart⟩ := elementOf?_eq_some hElement
  have hValue : value.references id = true := by
    rcases hPart with rfl | ⟨type, hCast⟩
    · exact hReferences value hInner
    · exact references_of_child (by simp [children, hCast]) (hReferences inner hInner)
  exact references_of_child (by simp [children, hKind]) hValue

/-- The length of the array that the local holds. -/
theorem isLengthOf_eq_true (hLength : isLengthOf id operand = true) :
    ∃ array, operand.kind = .length array ∧ array.asLocal? = some id := by
  unfold isLengthOf at hLength
  split at hLength
  · next array hKind => exact ⟨array, hKind, beq_iff_eq.mp hLength⟩
  · cases hLength

/-- The element of the one local at the other one. -/
theorem isElementOf_eq_true {array index : VariableId} (hAccess : isElementOf array index operand = true) :
    ∃ accessed position, operand.kind = .element accessed position ∧ accessed.asLocal? = some array ∧
      position.asLocal? = some index := by
  unfold isElementOf at hAccess
  split at hAccess
  · next accessed position hKind =>
      simp only [Bool.and_eq_true, beq_iff_eq] at hAccess
      exact ⟨accessed, position, hKind, hAccess⟩
  · cases hAccess

/-- A change of the local by one, which is neither a plain assignment nor a condition. -/
theorem stepsIndex_eq_true (hSteps : stepsIndex id operand = true) :
    ∃ stepped, stepped.asLocal? = some id ∧ stepped ∈ operand.children ∧
      (∀ target value, operand.kind ≠ .assign target .assign value) ∧
      ∀ test, operand.kind ≠ .condition test := by
  unfold stepsIndex at hSteps
  split at hSteps
  · next value hKind =>
      simp only [Bool.and_eq_true, beq_iff_eq] at hSteps
      exact ⟨value, hSteps.2, by simp [children, hKind], by simp [hKind], by simp [hKind]⟩
  · next target value hKind =>
      simp only [Bool.and_eq_true, beq_iff_eq] at hSteps
      exact ⟨target, hSteps.1, by simp [children, hKind], by simp [hKind], by simp [hKind]⟩
  · cases hSteps

end Statements

/-! ### Places -/

/-- The place of an operand counted from the end of the stack. -/
def fromTop (graph : Graph) (node : NodeId) (depth : Nat) : NodeId × Nat :=
  (node, (graph.node node).stack.length - 1 - depth)

theorem at?_fromTop {operand : Operand} {node : NodeId} {depth : Nat}
    (hPlace : (graph.node node).stack.reverse[depth]? = some operand) :
    at? graph (fromTop graph node depth) = some operand := by
  have hInside : depth < (graph.node node).stack.length := by
    simpa using (List.getElem?_eq_some_iff.mp hPlace).1
  rwa [List.getElem?_reverse hInside] at hPlace

theorem at?_top {operand : Operand} {node : NodeId} (hTop : (graph.node node).top? = some operand) :
    at? graph (fromTop graph node 0) = some operand :=
  at?_fromTop (by rwa [← List.head?_eq_getElem?, List.head?_reverse])

theorem at?_first {operand : Operand} {node : NodeId} (hFirst : (graph.node node).stack.head? = some operand) :
    at? graph (node, 0) = some operand :=
  List.head?_eq_getElem?.symm.trans hFirst

/-! ### Iterables -/

/-- The statements of an iteration over an iterable. -/
structure IteratorProtocol (graph : Graph) (header body previous : NodeId) (iterator : VariableId) : Prop where
  stores : ∃ operand value owner descriptor iterable special,
    at? graph (fromTop graph previous 0) = some operand ∧ assignment? operand = some (iterator, value) ∧
    value.kind = .call owner "iterator" descriptor (some iterable) [] special
  asks : ∃ operand test, at? graph (fromTop graph header 0) = some operand ∧ operand.kind = .condition test ∧
    isCallOn "hasNext" iterator test.left = true
  gives : ∃ operand element, at? graph (body, 0) = some operand ∧
    elementOf? (isCallOn "next" iterator) operand = some element
  uses : uses graph iterator = 3

/-- A loop is recognized by all parts of the protocol of an iterator. -/
theorem iteratorProtocol_of_overIterator? (hMatch : overIterator? graph symbols header body previous = some iteration) :
    ∃ iterator, IteratorProtocol graph header body previous iterator := by
  unfold overIterator? at hMatch
  simp only [Option.bind_eq_bind, Option.bind_eq_some_iff, Option.guard_eq_some'] at hMatch
  obtain ⟨hasNext, hHasNext, test, hTest, _, -, hMatch⟩ := hMatch
  split at hMatch
  · next owner descriptor receiver special hLeft =>
    simp only [Option.bind_eq_some_iff, Option.guard_eq_some', beq_iff_eq, exists_const, Prod.exists] at hMatch
    obtain ⟨iterator, hReceiver, store, hStore, _, value, hAssigned, rfl, hMatch⟩ := hMatch
    split at hMatch
    · next hValue =>
      simp only [Option.bind_eq_some_iff, Option.guard_eq_some', exists_const] at hMatch
      obtain ⟨-, next, hNext, element, hElement, hUses, -⟩ := hMatch
      refine ⟨_, ⟨store, value, _, _, _, _, at?_top hStore, hAssigned, hValue⟩,
        ⟨hasNext, test, at?_top hHasNext, Operand.condition?_eq_some hTest, ?_⟩,
        ⟨next, element, at?_first hNext, hElement⟩, hUses⟩
      simp [isCallOn, hLeft, hReceiver]
    · cases hMatch
  · cases hMatch

namespace IteratorProtocol

variable {iterator : VariableId} (protocol : IteratorProtocol graph header body previous iterator)

include protocol

/-- The iterator occurs where it is stored, where it is asked for more and where it gives the next element. -/
theorem confined (hLive : ∀ node ∈ [header, previous, body], node ∈ graph.order) :
    Confined graph iterator [fromTop graph header 0, fromTop graph previous 0, (body, 0)] := by
  obtain ⟨store, value, _, _, _, _, hStore, hAssigned, hValue⟩ := protocol.stores
  obtain ⟨hasNext, test, hHasNext, hTest, hAsks⟩ := protocol.asks
  obtain ⟨next, element, hNext, hElement⟩ := protocol.gives
  obtain ⟨target, hAssign, hTarget⟩ := assignment?_eq_some hAssigned
  obtain ⟨target', value', given, hGiven, hCall, hPart⟩ := elementOf?_eq_some hElement
  have hAsked : hasNext ≠ store ∧ hasNext ≠ next := by
    constructor
    · rintro rfl
      simp [hAssign] at hTest
    · rintro rfl
      simp [hGiven] at hTest
  have hDiffer : store ≠ next := by
    rintro rfl
    obtain ⟨_, _, _, _, hNextCall, -⟩ := isCallOn_eq_true hCall
    cases hAssign.symm.trans hGiven
    rcases hPart with rfl | ⟨type, hCast⟩
    · simp [hValue] at hNextCall
    · simp [hValue] at hCast
  refine confined_of_uses (List.Nodup.of_map (at? graph) ?_) ?_ protocol.uses
  · simp [hHasNext, hStore, hNext, hAsked, hDiffer]
  · simp only [List.forall_mem_cons] at hLive ⊢
    refine ⟨⟨hLive.1, hasNext, hHasNext, ?_⟩, ⟨hLive.2.1, store, hStore, ?_⟩, ⟨hLive.2.2.1, next, hNext, ?_⟩, by simp⟩
    · exact references_of_child (by simp [children, hTest]) (references_of_isCallOn hAsks)
    · exact references_of_child (by simp [children, hAssign]) (references_of_asLocal? hTarget)
    · exact references_of_elementOf? hElement fun inner => references_of_isCallOn

end IteratorProtocol

/-- A loop over an iterable is recognized only if its iterator is used for nothing else. -/
theorem confined_of_overIterator? (hMatch : overIterator? graph symbols header body previous = some iteration)
    (hLive : ∀ node ∈ [header, previous, body], node ∈ graph.order) :
    ∃ iterator, IteratorProtocol graph header body previous iterator ∧
      Confined graph iterator [fromTop graph header 0, fromTop graph previous 0, (body, 0)] := by
  obtain ⟨iterator, protocol⟩ := iteratorProtocol_of_overIterator? hMatch
  exact ⟨iterator, protocol, protocol.confined hLive⟩

/-! ### Arrays -/

/-- The statements of an iteration over an array. -/
structure ArrayProtocol (graph : Graph) (header body previous source : NodeId) (array length index : VariableId) :
    Prop where
  storesArray : ∃ operand value, at? graph (fromTop graph previous 2) = some operand ∧
    assignment? operand = some (array, value)
  storesLength : ∃ operand value, at? graph (fromTop graph previous 1) = some operand ∧
    assignment? operand = some (length, value) ∧ isLengthOf array value = true
  storesIndex : ∃ operand value, at? graph (fromTop graph previous 0) = some operand ∧
    assignment? operand = some (index, value) ∧ value.isConstant 0 = true
  setup : 3 ≤ (graph.node previous).stack.length
  compares : ∃ operand test, at? graph (fromTop graph header 0) = some operand ∧ operand.kind = .condition test ∧
    (if test.onTrue = some body then test.operator else test.operator.negate) = .lt ∧
    test.left.asLocal? = some index ∧ test.right.asLocal? = some length
  accesses : ∃ operand element, at? graph (body, 0) = some operand ∧
    elementOf? (isElementOf array index) operand = some element
  steps : ∃ operand, at? graph (fromTop graph source 0) = some operand ∧ stepsIndex index operand = true
  usesArray : uses graph array = 3
  usesLength : uses graph length = 2
  usesIndex : uses graph index = 4

/-- A loop is recognized by all parts of the protocol of an array, its length and an index. -/
theorem arrayProtocol_of_overArray? (hMatch : overArray? graph header body previous source = some iteration) :
    ∃ array length index, ArrayProtocol graph header body previous source array length index := by
  unfold overArray? at hMatch
  simp only [Option.bind_eq_bind, Option.bind_eq_some_iff, Option.guard_eq_some', exists_const] at hMatch
  obtain ⟨compared, hCompared, test, hTest, hFollows, index, hIndex, length, hLength, hMatch⟩ := hMatch
  split at hMatch
  · next indexStore lengthStore arrayStore rest hStack =>
    simp only [Option.bind_eq_some_iff, Option.guard_eq_some', exists_const, Bool.and_eq_true, beq_iff_eq,
      Prod.exists] at hMatch
    obtain ⟨array, value, hArray, _, measured, hMeasured, _, start, hStart, ⟨rfl, rfl⟩, ⟨hLengthOf, hZero⟩, first,
      hFirst, element, hElement, hSteps, ⟨⟨hUsesArray, hUsesLength⟩, hUsesIndex⟩, -⟩ := hMatch
    rcases hTop : (graph.node source).top? with _ | step
    · simp [hTop] at hSteps
    rw [hTop, Option.any_some] at hSteps
    have hStacked (depth : Nat) {operand : Operand}
        (hOperand : (indexStore :: lengthStore :: arrayStore :: rest)[depth]? = some operand) :
        at? graph (fromTop graph previous depth) = some operand := at?_fromTop (hStack ▸ hOperand)
    have hSetup : 3 ≤ (graph.node previous).stack.length := by
      rw [← List.length_reverse, hStack]
      simp
    exact ⟨array, _, _, ⟨arrayStore, value, hStacked 2 rfl, hArray⟩,
      ⟨lengthStore, measured, hStacked 1 rfl, hMeasured, hLengthOf⟩,
      ⟨indexStore, start, hStacked 0 rfl, hStart, hZero⟩, hSetup,
      ⟨compared, test, at?_top hCompared, Operand.condition?_eq_some hTest, hFollows, hIndex, hLength⟩,
      ⟨first, element, at?_first hFirst, hElement⟩, ⟨step, at?_top hTop, hSteps⟩, hUsesArray, hUsesLength,
      hUsesIndex⟩
  · cases hMatch

namespace ArrayProtocol

variable {array length index : VariableId} (protocol : ArrayProtocol graph header body previous source array length index)

include protocol

/-- The array occurs where it is stored, where its length is stored and where an element is read. -/
theorem confined_array (hPrevious : previous ∈ graph.order) (hBody : body ∈ graph.order) (hApart : body ≠ previous) :
    Confined graph array [fromTop graph previous 2, fromTop graph previous 1, (body, 0)] := by
  obtain ⟨arrayStore, _, hArrayStore, hArray⟩ := protocol.storesArray
  obtain ⟨lengthStore, measured, hLengthStore, hLength, hMeasured⟩ := protocol.storesLength
  obtain ⟨next, _, hNext, hElement⟩ := protocol.accesses
  obtain ⟨target, hStored, hTarget⟩ := assignment?_eq_some hArray
  obtain ⟨_, hAssigned, -⟩ := assignment?_eq_some hLength
  obtain ⟨measuredArray, hMeasuredKind, hMeasuredArray⟩ := isLengthOf_eq_true hMeasured
  have hSetup := protocol.setup
  -- The array's store and the read of an element are both plain assignments; only their nodes tell them apart.
  refine confined_of_uses ?_ ?_ protocol.usesArray
  · have hDepths : (graph.node previous).stack.length - 1 - 2 ≠ (graph.node previous).stack.length - 1 - 1 := by omega
    simp [fromTop, hDepths, Ne.symm hApart]
  · simp only [List.forall_mem_cons]
    refine ⟨⟨hPrevious, arrayStore, hArrayStore, ?_⟩, ⟨hPrevious, lengthStore, hLengthStore, ?_⟩,
      ⟨hBody, next, hNext, ?_⟩, by simp⟩
    · exact references_of_child (by simp [children, hStored]) (references_of_asLocal? hTarget)
    · have hMeasures : measured.references array = true :=
        references_of_child (by simp [children, hMeasuredKind]) (references_of_asLocal? hMeasuredArray)
      exact references_of_child (by simp [children, hAssigned]) hMeasures
    · refine references_of_elementOf? hElement fun inner hAccess => ?_
      obtain ⟨accessed, position, hKind, hAccessed, -⟩ := isElementOf_eq_true hAccess
      exact references_of_child (by simp [children, hKind]) (references_of_asLocal? hAccessed)

/-- The length occurs where it is stored and where it is compared with the index. -/
theorem confined_length (hPrevious : previous ∈ graph.order) (hHeader : header ∈ graph.order) :
    Confined graph length [fromTop graph previous 1, fromTop graph header 0] := by
  obtain ⟨lengthStore, measured, hLengthStore, hLength, -⟩ := protocol.storesLength
  obtain ⟨compared, test, hCompared, hTest, -, -, hRight⟩ := protocol.compares
  obtain ⟨target, hAssigned, hTarget⟩ := assignment?_eq_some hLength
  have hDiffer : lengthStore ≠ compared := by
    rintro rfl
    simp [hAssigned] at hTest
  refine confined_of_uses (List.Nodup.of_map (at? graph) ?_) ?_ protocol.usesLength
  · simp [hLengthStore, hCompared, hDiffer]
  · simp only [List.forall_mem_cons]
    refine ⟨⟨hPrevious, lengthStore, hLengthStore, ?_⟩, ⟨hHeader, compared, hCompared, ?_⟩, by simp⟩
    · exact references_of_child (by simp [children, hAssigned]) (references_of_asLocal? hTarget)
    · exact references_of_child (by simp [children, hTest]) (references_of_asLocal? hRight)

/-- The index occurs where it is stored, compared and stepped, and where an element is read. -/
theorem confined_index (hLive : ∀ node ∈ [previous, header, body, source], node ∈ graph.order) :
    Confined graph index [fromTop graph previous 0, fromTop graph header 0, (body, 0), fromTop graph source 0] := by
  obtain ⟨indexStore, start, hIndexStore, hIndex, hZero⟩ := protocol.storesIndex
  obtain ⟨compared, test, hCompared, hTest, -, hLeft, -⟩ := protocol.compares
  obtain ⟨next, _, hNext, hElement⟩ := protocol.accesses
  obtain ⟨step, hStep, hSteps⟩ := protocol.steps
  obtain ⟨target, hAssigned, hTarget⟩ := assignment?_eq_some hIndex
  obtain ⟨element, value, inner, hRead, hAccess, hPart⟩ := elementOf?_eq_some hElement
  obtain ⟨accessed, position, hAccessKind, -, hPosition⟩ := isElementOf_eq_true hAccess
  obtain ⟨stepped, hStepped, hChild, hNoStore, hNoTest⟩ := stepsIndex_eq_true hSteps
  have hStore : indexStore ≠ compared ∧ indexStore ≠ next ∧ indexStore ≠ step := by
    refine ⟨?_, ?_, ?_⟩
    · rintro rfl
      simp [hAssigned] at hTest
    · rintro rfl
      cases hAssigned.symm.trans hRead
      rcases hPart with rfl | ⟨type, hCast⟩
      · simp [Operand.isConstant, hAccessKind] at hZero
      · simp [Operand.isConstant, hCast] at hZero
    · rintro rfl
      exact hNoStore target start hAssigned
  have hOther : compared ≠ next ∧ compared ≠ step ∧ next ≠ step := by
    refine ⟨?_, ?_, ?_⟩
    · rintro rfl
      simp [hRead] at hTest
    · rintro rfl
      exact hNoTest test hTest
    · rintro rfl
      exact hNoStore element value hRead
  refine confined_of_uses (List.Nodup.of_map (at? graph) ?_) ?_ protocol.usesIndex
  · simp [hIndexStore, hCompared, hNext, hStep, hStore, hOther]
  · simp only [List.forall_mem_cons] at hLive ⊢
    refine ⟨⟨hLive.1, indexStore, hIndexStore, ?_⟩, ⟨hLive.2.1, compared, hCompared, ?_⟩,
      ⟨hLive.2.2.1, next, hNext, ?_⟩, ⟨hLive.2.2.2.1, step, hStep, ?_⟩, by simp⟩
    · exact references_of_child (by simp [children, hAssigned]) (references_of_asLocal? hTarget)
    · exact references_of_child (by simp [children, hTest]) (references_of_asLocal? hLeft)
    · refine references_of_elementOf? hElement fun inner hAccess => ?_
      obtain ⟨_, position, hKind, -, hPosition⟩ := isElementOf_eq_true hAccess
      exact references_of_child (by simp [children, hKind]) (references_of_asLocal? hPosition)
    · exact references_of_child hChild (references_of_asLocal? hStepped)

end ArrayProtocol

/-- A loop over an array is recognized only if its body follows while the index is less than the length, and if the
locals for the array, its length and the index are used for nothing else. -/
theorem confined_of_overArray? (hMatch : overArray? graph header body previous source = some iteration)
    (hLive : ∀ node ∈ [previous, header, body, source], node ∈ graph.order) (hApart : body ≠ previous) :
    ∃ array length index, ArrayProtocol graph header body previous source array length index ∧
      Confined graph array [fromTop graph previous 2, fromTop graph previous 1, (body, 0)] ∧
      Confined graph length [fromTop graph previous 1, fromTop graph header 0] ∧
      Confined graph index
        [fromTop graph previous 0, fromTop graph header 0, (body, 0), fromTop graph source 0] := by
  obtain ⟨array, length, index, protocol⟩ := arrayProtocol_of_overArray? hMatch
  have hPrevious := hLive previous (by simp)
  exact ⟨array, length, index, protocol, protocol.confined_array hPrevious (hLive body (by simp)) hApart,
    protocol.confined_length hPrevious (hLive header (by simp)), protocol.confined_index hLive⟩

end Iteration

end Decompiler
