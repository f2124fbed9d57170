import ToolCatalog.CommandLine

/-!
# The program

The thin layer around `CommandLine.run`: it reads the arguments and the document, prints what the
run gives and writes the catalog.
-/

namespace ToolCatalog.Program

/-- What is found at a path.  Whatever cannot be read counts as missing. -/
def find (path : String) : IO Document.File := do
  try
    return .content (← IO.FS.readBinFile path)
  catch _ =>
    return .missing

/-- Write a file, with the directories above it. -/
def write (path text : String) : IO Unit := do
  match CommandLine.Path.directory? path with
  | some directory => IO.FS.createDirAll directory
  | none => pure ()
  IO.FS.writeFile path text

/-- Run the program with its arguments; the result is the exit code. -/
def run (args : List String) : IO UInt32 := do
  let file ← match CommandLine.parse? false args with
    | some invocation => find invocation.command.document
    | none => pure .missing
  let report := CommandLine.run (fun _ => file) args
  for line in report.diagnostics do IO.eprintln line
  match report.file with
  | some (path, text) => write path text
  | none => pure ()
  IO.print report.output
  IO.eprint report.errors
  return report.exitCode.toUInt32

end ToolCatalog.Program

def main (args : List String) : IO UInt32 := ToolCatalog.Program.run args
