import Decompiler.Code.Listing
import Decompiler.Execution.Run
import Decompiler.Structure.Fold

/-!
Decompiling units: symbolic execution into a node graph, folding into statements, and the listing.
-/

namespace Decompiler

/-- The outcome of one unit of a batch. -/
structure UnitOutcome where
  signature : String
  result : Except Error String

/-- Executes and folds a unit. What was folded on answers that are none is no result. -/
def decompileUnit (setting : Setting) (unit : CompiledUnit) : Except Error DecompiledMethod := do
  let body ← (MethodBody.ofUnit unit setting).1
  let (tree, body, _) := body.fold setting
  if body.graph.endless then throw (.endless unit.signature)
  return { body, tree := ← tree }

/-- The listing of a unit. -/
def decompile (setting : Setting) (unit : CompiledUnit) : Except Error String := do
  match (← decompileUnit setting unit).listing? with
  | some listing => return listing
  | none => throw (.endless unit.signature)

/-- The listings of all units. A unit that fails does not stop the others. -/
def decompileAll (setting : Setting) (units : List CompiledUnit) : List UnitOutcome :=
  units.map fun unit => { signature := unit.signature, result := decompile setting unit }

end Decompiler
