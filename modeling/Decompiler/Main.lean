import Decompiler.Arguments

/-!
The command line.
-/

open Decompiler

/-- Reads a file, or notes why it cannot be read. -/
def readText (path : String) : IO (Except Error String) :=
  tryCatch (.ok <$> IO.FS.readFile path) fun fault =>
    return .error (.io ("Failed to read " ++ path ++ ": " ++ toString fault))

/-- Reads the files of a command, runs it and writes what it leaves. -/
def perform (command : Command) : IO UInt32 := do
  let texts ← command.paths.mapM fun path => return (path, ← readText path)
  let outcome := command.run fun path => (texts.lookup path).getD (.error (.io path))
  for file in outcome.files do IO.FS.writeFile file.path file.content
  IO.print outcome.output
  match outcome.failure with
  | some failure =>
    IO.eprintln failure.message
    return 1
  | none => return 0

def main (arguments : List String) : IO UInt32 := do
  match Arguments.read? arguments with
  | some command => perform command
  | none =>
    IO.eprint Arguments.usage
    return 2
