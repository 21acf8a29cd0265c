import Decompiler.Command

/-!
Commands read from the arguments of the program.
-/

namespace Decompiler.Arguments

def usage : String :=
  "usage: decompile INPUT [-o FILE] [-f PATTERN] [--options FILE] [--no-ternary] [--no-increments]\n"
    ++ "         [--no-enhanced-for] [--no-switch-expressions] [--keep-finally-duplicates]\n"
    ++ "         [--trace] [--sequential]\n"
    ++ "       cfg INPUT [-f PATTERN] [-d DIRECTORY] [--details]\n"

/-- The flag of a listing that an argument sets. -/
def listingFlag? (flags : Options.Flags) : String → Option Options.Flags
  | "--no-ternary" => some { flags with noTernary := true }
  | "--no-increments" => some { flags with noIncrements := true }
  | "--no-enhanced-for" => some { flags with noEnhancedFor := true }
  | "--no-switch-expressions" => some { flags with noSwitchExpressions := true }
  | "--keep-finally-duplicates" => some { flags with keepFinallyDuplicates := true }
  | "--trace" => some { flags with trace := true }
  | "--sequential" => some { flags with sequential := true }
  | _ => none

def readListing? (command : ListingCommand) : List String → Option ListingCommand
  | [] => some command
  | "-o" :: path :: rest | "--output" :: path :: rest =>
    readListing? { command with output := some path } rest
  | "-f" :: pattern :: rest | "--filter" :: pattern :: rest =>
    readListing? { command with filter := some pattern } rest
  | "--options" :: path :: rest => readListing? { command with options := some path } rest
  | argument :: rest => do
    let flags ← listingFlag? command.flags argument
    readListing? { command with flags } rest

def readGraph? (command : GraphCommand) : List String → Option GraphCommand
  | [] => some command
  | "-f" :: pattern :: rest | "--filter" :: pattern :: rest =>
    readGraph? { command with filter := some pattern } rest
  | "-d" :: path :: rest | "--dot" :: path :: rest =>
    readGraph? { command with drawings := some path } rest
  | "--details" :: rest => readGraph? { command with details := true } rest
  | _ :: _ => none

/-- The command that the arguments ask for. -/
def read? : List String → Option Command
  | "decompile" :: input :: rest => .listings <$> readListing? { input } rest
  | "cfg" :: input :: rest => .graphs <$> readGraph? { input } rest
  | _ => none

end Decompiler.Arguments
