import Decompiler.Json.Fields

/-!
Options that say which compiled shapes are folded back into source constructs.
-/

namespace Decompiler

structure Options where
  /-- Join the values of a two-way branch into a conditional expression. -/
  fuseTernary : Bool := true
  /-- Fold read-modify-write sequences into increments and compound assignments. -/
  fuseIncrements : Bool := true
  /-- Rebuild loops over iterators and arrays. -/
  fuseEnhancedFor : Bool := true
  /-- Turn a switch whose arms leave one value each into a switch expression. -/
  fuseSwitchExpressions : Bool := true
  /-- Drop the copies of a finally block at the exits of its protected region. -/
  removeFinallyDuplicates : Bool := true
  /-- Declare locals where all their uses are in scope. -/
  placeDeclarations : Bool := true
  /-- Record the progress of each node. -/
  trace : Bool := false
  /-- Units may be processed at the same time. No answer depends on it. -/
  parallel : Bool := true
  deriving DecidableEq, Inhabited

namespace Options

/-- Every fold disabled. -/
def literal : Options :=
  { fuseTernary := false, fuseIncrements := false, fuseEnhancedFor := false
    fuseSwitchExpressions := false, removeFinallyDuplicates := false, placeDeclarations := false
    trace := false, parallel := false }

/-- The flags of the command line; each of the first five disables one fold. -/
structure Flags where
  noTernary : Bool := false
  noIncrements : Bool := false
  noEnhancedFor : Bool := false
  noSwitchExpressions : Bool := false
  keepFinallyDuplicates : Bool := false
  trace : Bool := false
  sequential : Bool := false

def ofFlags (flags : Flags) : Options :=
  { fuseTernary := !flags.noTernary
    fuseIncrements := !flags.noIncrements
    fuseEnhancedFor := !flags.noEnhancedFor
    fuseSwitchExpressions := !flags.noSwitchExpressions
    removeFinallyDuplicates := !flags.keepFinallyDuplicates
    trace := flags.trace
    parallel := !flags.sequential }

/-- Reads options from an object of booleans; an absent one keeps its default. -/
def ofJson (json : Json) : Except ParseFault Options := do
  match json with
  | .obj _ =>
    let flag (name : String) (default : Bool) := Fields.withDefault json name default Fields.readBool
    return { fuseTernary := ← flag "fuse_ternary" true
             fuseIncrements := ← flag "fuse_increments" true
             fuseEnhancedFor := ← flag "fuse_enhanced_for" true
             fuseSwitchExpressions := ← flag "fuse_switch_expressions" true
             removeFinallyDuplicates := ← flag "remove_finally_duplicates" true
             placeDeclarations := ← flag "place_declarations" true
             trace := ← flag "trace" false
             parallel := ← flag "parallel" true }
  | _ => throw (.shape "an options object")

/-- The options of an options file. -/
def parse (text : String) : Except ParseFault Options := do
  match Json.parse text with
  | .ok json => ofJson json
  | .error fault => throw (.json fault)

end Options

end Decompiler
