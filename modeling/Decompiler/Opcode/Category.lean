import Decompiler.Opcode.Basic

/-!
Named groups of instruction codes, and the entries of instruction templates.
-/

namespace Decompiler

inductive Category where
  | add
  | sub
  /-- A constant zero of any numeric type. -/
  | zero
  /-- A constant one of any numeric type. -/
  | one
  | duplicate
  /-- A copy that goes below the top entry. -/
  | duplicateAway
  | return
  /-- Any conditional jump, or `goto`. -/
  | jump
  /-- Any conditional jump. -/
  | compare
  | longCompare
  | floatCompare
  | doubleCompare
  | frame
  | invoke
  | arrayLoad
  | arrayStore
  | load
  | store
  deriving DecidableEq

namespace Category

def contains (category : Category) (op : Opcode) : Bool :=
  match category with
  | .add => op ∈ [.iadd, .ladd, .fadd, .dadd]
  | .sub => op ∈ [.isub, .lsub, .fsub, .dsub]
  | .zero => op ∈ [.iconst_0, .lconst_0, .fconst_0, .dconst_0]
  | .one => op ∈ [.iconst_1, .lconst_1, .fconst_1, .dconst_1]
  | .duplicate => op ∈ [.dup, .dup2]
  | .duplicateAway => op ∈ [.dup_x1, .dup2_x1]
  | .return => op.isReturn
  | .jump => op.isJump
  | .compare => op.isConditionalJump
  | .longCompare => op == .lcmp
  | .floatCompare => op ∈ [.fcmpl, .fcmpg]
  | .doubleCompare => op ∈ [.dcmpl, .dcmpg]
  | .frame => op.isFrame
  | .invoke => op.isInvoke
  | .arrayLoad => op.isArrayLoad
  | .arrayStore => op.isArrayStore
  | .load => op.isLoad
  | .store => op.isStore

end Category

/-- One entry of a template. -/
inductive Pattern where
  | op (code : Opcode)
  | category (group : Category)
  deriving DecidableEq

def Pattern.accepts : Pattern → Opcode → Bool
  | .op code, found => code == found
  | .category group, found => group.contains found

instance : Coe Opcode Pattern := ⟨.op⟩

instance : Coe Category Pattern := ⟨.category⟩

end Decompiler
