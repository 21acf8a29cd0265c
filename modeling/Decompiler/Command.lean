import Decompiler.Report

/-!
The commands of the program as functions of the files that they read. What a command writes is a value, so that
the outer layer has only to read, run and write.
-/

namespace Decompiler

/-- Decompile the selected units of a feed. -/
structure ListingCommand where
  input : String
  /-- The file that receives the report, in place of the standard output. -/
  output : Option String := none
  filter : Option String := none
  /-- An options file, which overrides the flags. -/
  options : Option String := none
  flags : Options.Flags := {}

/-- Report the node graphs of the selected units of a feed. -/
structure GraphCommand where
  input : String
  filter : Option String := none
  /-- The directory that receives one drawing a unit. -/
  drawings : Option String := none
  /-- Show the operands of each node in its drawing. -/
  details : Bool := false

inductive Command where
  | listings (command : ListingCommand)
  | graphs (command : GraphCommand)

/-- What a command writes, and why it failed if it did. -/
structure CommandOutcome where
  files : List TextFile := []
  output : String := ""
  failure : Option Error := none

/-- The contents of files by path, or why one cannot be read. -/
abbrev Files := String → Except Error String

namespace ListingCommand

/-- The options that a command asks for. -/
def loadOptions (command : ListingCommand) (files : Files) : Except Error Options := do
  match command.options with
  | some path => (Options.parse (← files path)).mapError .parse
  | none => return .ofFlags command.flags

/-- The outcomes of the selected units. Selecting none is a fault. -/
def outcomes (command : ListingCommand) (files : Files) : Except Error (List UnitOutcome) := do
  let feed ← files command.input
  let units ← (selectUnits feed command.filter).mapError Error.parse
  if units.isEmpty then throw (.parse (.nothingSelected command.input))
  let options ← command.loadOptions files
  return decompileAll { options, symbols := .descriptors } units

/-- The report is written also if every unit fails. -/
def run (command : ListingCommand) (files : Files) : CommandOutcome :=
  match command.outcomes files with
  | .error failure => { failure := some failure }
  | .ok outcomes =>
    let report := listingReport outcomes
    let failure := if outcomes.all UnitOutcome.failed then some (.allFailed outcomes.length) else none
    match command.output with
    | some path => { files := [{ path, content := report }], failure }
    | none => { output := report, failure }

end ListingCommand

namespace GraphCommand

def run (command : GraphCommand) (files : Files) : CommandOutcome :=
  let units := do (selectUnits (← files command.input) command.filter).mapError Error.parse
  match units with
  | .error failure => { failure := some failure }
  | .ok units =>
    let drawings := command.drawings.map fun directory => { directory, details := command.details }
    let (output, files) := graphReport drawings units
    { files, output }

end GraphCommand

namespace Command

/-- The files that a command reads. -/
def paths : Command → List String
  | .listings command => command.input :: command.options.toList
  | .graphs command => [command.input]

def run : Command → Files → CommandOutcome
  | .listings command => command.run
  | .graphs command => command.run

end Command

end Decompiler
