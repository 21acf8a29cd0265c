import Decompiler.Event.Basic

/-!
Events that a program writes when it builds a unit without a feed.
-/

namespace Decompiler.Event

/-- Pushes an int constant with the shortest instruction that holds it. -/
def pushInt (value : Int32) : Event :=
  if -1 ≤ value ∧ value ≤ 5 then .insn (constant value.toInt)
  else if -128 ≤ value ∧ value ≤ 127 then .int .bipush value
  else if -32768 ≤ value ∧ value ≤ 32767 then .int .sipush value
  else .ldc (.int value)
where
  /-- The instruction that pushes a constant from -1 to 5. -/
  constant : Int → Opcode
    | -1 => .iconst_m1
    | 1 => .iconst_1
    | 2 => .iconst_2
    | 3 => .iconst_3
    | 4 => .iconst_4
    | 5 => .iconst_5
    | _ => .iconst_0

/-- A call site that makes a lambda or a method reference. -/
def lambda (name descriptor : String) (implementation : MemberName) : Event :=
  .invokeDynamic name descriptor ⟨"java/lang/invoke/LambdaMetafactory", "metafactory", ""⟩
    (some implementation) none

/-- A call site that concatenates strings by a recipe. -/
def concat (descriptor recipe : String) : Event :=
  .invokeDynamic "makeConcatWithConstants" descriptor
    ⟨"java/lang/invoke/StringConcatFactory", "makeConcatWithConstants", ""⟩ none (some recipe)

/-- A frame without locals; the kind with one stack item has one. -/
def plainFrame (kind : FrameKind) : Event := .frame kind 0 (if kind = .same1 then 1 else 0)

end Decompiler.Event
