import Decompiler.Code.Expression
import Decompiler.Structure.Nesting

/-!
What an operand is written with. Of the code of switch expressions, only that of those inside the operand matters.
-/

namespace Decompiler

namespace Code

/-- The scope with other code for switch expressions. -/
def Scope.withValues (scope : Scope) (values : NodeId → Code) : Scope := { scope with switchValue := values }

/-- The code of switch expressions is the same for all among the operands. -/
def SameValues (values others : NodeId → Code) (operands : List Operand) : Prop :=
  ∀ head ∈ operands.filterMap Operand.switchHead?, values head = others head

variable {scope : Scope} {values others : NodeId → Code} {operands more : List Operand}

/-- Codes agree on a list of operands if they agree on both halves of it. -/
theorem sameValues_append : SameValues values others (operands ++ more) ↔
    SameValues values others operands ∧ SameValues values others more := by
  rw [SameValues, List.filterMap_append]
  exact List.forall_mem_append

/-- The switch expressions inside an operand are the operand itself, if it is one, and those inside its parts. -/
theorem SameValues.parts {operand : Operand} (same : SameValues values others operand.walk) :
    (∀ head, operand.kind = .switch head → values head = others head) ∧
      SameValues values others operand.kind.walkParts := by
  obtain ⟨id, type, duplicated, enclosed, statement, kind⟩ := operand
  rw [Operand.walk] at same
  refine ⟨fun head hKind => same head ?_, fun head hHead => same head ?_⟩
  · exact List.mem_filterMap.mpr ⟨_, List.mem_cons_self, by rw [Operand.switchHead?, hKind]⟩
  · exact List.Sublist.subset (List.Sublist.filterMap _ (List.sublist_cons_self _ _)) hHead

/-! ### Strength -/

mutual

/-- How tightly an operand binds is told by its constructor, also for a switch expression. -/
theorem strength_withValues (scope : Scope) (values : NodeId → Code) (operand : Operand) :
    strength (scope.withValues values) operand = strength scope operand := by
  obtain ⟨id, type, duplicated, enclosed, statement, kind⟩ := operand
  rw [strength, strength]
  exact strengthOfKind_withValues scope values _ kind

theorem strengthOfKind_withValues (scope : Scope) (values : NodeId → Code) (boolean : Bool) (kind : OperandKind) :
    strengthOfKind (scope.withValues values) boolean kind = strengthOfKind scope boolean kind := by
  cases kind with
  | zeroOrOne test => rw [strengthOfKind, strengthOfKind, strength_withValues scope values test]
  | condition test => rw [strengthOfKind, strengthOfKind, strengthOfTest_withValues scope values test]
  | number value => cases value <;> rfl
  | _ => rfl

theorem strengthOfTest_withValues (scope : Scope) (values : NodeId → Code) (test : Condition) :
    strengthOfTest (scope.withValues values) test = strengthOfTest scope test := by
  obtain ⟨left, operator, right, onTrue, onFalse, grouped⟩ := test
  rw [strengthOfTest, strengthOfTest, strength_withValues scope values left]
  rfl

end

/-! ### Code -/

mutual

/-- An operand is written alike if the switch expressions inside it are. -/
theorem ofOperand_withValues (scope : Scope) (minimum : Nat) (operand : Operand)
    (same : SameValues values others operand.walk) :
    ofOperand (scope.withValues values) minimum operand = ofOperand (scope.withValues others) minimum operand := by
  obtain ⟨id, type, duplicated, enclosed, statement, kind⟩ := operand
  rw [ofOperand, ofOperand]
  rw [strength_withValues, strength_withValues]
  have hKind := ofKind_withValues scope (scope.types.typeOf type) kind same.parts.1 same.parts.2
  dsimp only [Scope.withValues] at hKind ⊢
  rw [hKind]

/-- By cases on the constructor, parts by recursion. Only a switch expression asks for the code of one. -/
theorem ofKind_withValues (scope : Scope) (type : JvmType) (kind : OperandKind)
    (hSwitch : ∀ head, kind = .switch head → values head = others head)
    (same : SameValues values others kind.walkParts) :
    ofKind (scope.withValues values) type kind = ofKind (scope.withValues others) type kind := by
  cases kind with
  | switch head => exact hSwitch head rfl
  | number value => cases value <;> rfl
  | binary left operator right =>
      rw [OperandKind.walkParts, sameValues_append] at same
      rw [ofKind, ofKind, ofOperand_withValues scope _ left same.1, ofOperand_withValues scope _ right same.2]
  | assign target operator value =>
      rw [OperandKind.walkParts, sameValues_append] at same
      rw [ofKind, ofKind, ofOperand_withValues scope _ target same.1, ofOperand_withValues scope _ value same.2]
  | element array index =>
      rw [OperandKind.walkParts, sameValues_append] at same
      rw [ofKind, ofKind, ofOperand_withValues scope _ array same.1, ofOperand_withValues scope _ index same.2]
  | unary operator value => rw [ofKind, ofKind, ofOperand_withValues scope _ value same]
  | length value => rw [ofKind, ofKind, ofOperand_withValues scope _ value same]
  | cast named value => rw [ofKind, ofKind, ofOperand_withValues scope _ value same]
  | instanceOf value named => rw [ofKind, ofKind, ofOperand_withValues scope _ value same]
  | throws value => rw [ofKind, ofKind, ofOperand_withValues scope _ value same]
  | yields value => rw [ofKind, ofKind, ofOperand_withValues scope _ value same]
  | zeroOrOne test =>
      rw [ofKind, ofKind, ofOperand_withValues scope _ test same, ofOperand_withValues scope _ test same]
  | condition test => rw [ofKind, ofKind, ofTest_withValues scope test same]
  | call owner name descriptor receiver arguments special =>
      rw [OperandKind.walkParts, sameValues_append] at same
      rw [ofKind, ofKind, ofOption_withValues scope _ receiver same.1, ofList_withValues scope arguments same.2]
  | construct owner descriptor kind arguments => rw [ofKind, ofKind, ofList_withValues scope arguments same]
  | lambda owner name descriptor interface captures => rw [ofKind, ofKind, ofList_withValues scope captures same]
  | field owner name receiver => rw [ofKind, ofKind, ofOption_withValues scope _ receiver same]
  | methodReference owner name receiver => rw [ofKind, ofKind, ofOption_withValues scope _ receiver same]
  | returns value => rw [ofKind, ofKind, ofOption_withValues scope _ value same]
  | newArray element dimensions initializers =>
      rw [OperandKind.walkParts, sameValues_append] at same
      rw [ofKind, ofKind, ofList_withValues scope dimensions same.1,
        ofInitializers_withValues scope initializers same.2]
  | ternary test onTrue onFalse =>
      rw [OperandKind.walkParts, sameValues_append, sameValues_append] at same
      rw [ofKind, ofKind, ofOperand_withValues scope _ test same.1.1, ofOperand_withValues scope _ onTrue same.1.2,
        ofOperand_withValues scope _ onFalse same.2]
  | asserts test message =>
      rw [OperandKind.walkParts, sameValues_append] at same
      rw [ofKind, ofKind, ofOperand_withValues scope _ test same.1, ofOption_withValues scope _ message same.2]
  | _ => rfl

/-- The sides of a test are operands themselves. -/
theorem ofTest_withValues (scope : Scope) (test : Condition) (same : SameValues values others test.walkSides) :
    ofTest (scope.withValues values) test = ofTest (scope.withValues others) test := by
  obtain ⟨left, operator, right, onTrue, onFalse, grouped⟩ := test
  rw [Condition.walkSides, sameValues_append] at same
  have hLeft := fun minimum => ofOperand_withValues scope minimum left same.1
  have hRight := fun minimum => ofOperand_withValues scope minimum right same.2
  have hTest : ∀ given, (scope.withValues given).booleanTest? ⟨left, operator, right, onTrue, onFalse, grouped⟩ =
      scope.booleanTest? ⟨left, operator, right, onTrue, onFalse, grouped⟩ := fun _ => rfl
  rw [ofTest, ofTest, hTest, hTest]
  split
  · exact hLeft 0
  · rw [hLeft]
  · simp only [hLeft, hRight]

theorem ofOption_withValues (scope : Scope) (minimum : Nat) (operand : Option Operand)
    (same : SameValues values others (Operand.walkOption operand)) :
    ofOption (scope.withValues values) minimum operand = ofOption (scope.withValues others) minimum operand := by
  cases operand with
  | none => rfl
  | some operand =>
      rw [ofOption, ofOption, ofOperand_withValues scope minimum operand same]

theorem ofList_withValues (scope : Scope) (operands : List Operand)
    (same : SameValues values others (Operand.walkAll operands)) :
    ofList (scope.withValues values) operands = ofList (scope.withValues others) operands := by
  cases operands with
  | nil => rfl
  | cons operand rest =>
      rw [Operand.walkAll, sameValues_append] at same
      rw [ofList, ofList, ofOperand_withValues scope 0 operand same.1, ofList_withValues scope rest same.2]

theorem ofInitializers_withValues (scope : Scope) (values? : Option (List Operand))
    (same : SameValues values others (Operand.walkInitializers values?)) :
    ofInitializers (scope.withValues values) values? = ofInitializers (scope.withValues others) values? := by
  cases values? with
  | none => rfl
  | some operands =>
      rw [Operand.walkInitializers] at same
      rw [ofInitializers, ofInitializers, ofList_withValues scope operands same]

end

/-- A statement is written like the operand that it is, with a semicolon. -/
theorem ofStatement_withValues (scope : Scope) (operand : Operand) (same : SameValues values others operand.walk) :
    ofStatement (scope.withValues values) operand = ofStatement (scope.withValues others) operand := by
  have hOperand := ofOperand_withValues scope 0 operand same
  have hKind := fun type => ofKind_withValues scope type operand.kind same.parts.1 same.parts.2
  rw [ofStatement, ofStatement]
  split
  all_goals first | exact congrArg Code.statement hOperand | exact hKind _

end Code

end Decompiler
