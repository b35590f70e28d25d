import SyntaxMining.Command.Run
import SyntaxMining.Json.Parser
import SyntaxMining.Workspace.Snapshot

/-!
# Command line

The arguments name the command.  The workspace it works on, with the answers of the parsers, is
read as a snapshot from standard input; the files the command makes are written below the working
directory.
-/

namespace SyntaxMining.Command

/-- Configuration that is used when the arguments name none. -/
def defaultConfig : String := "syntax_mining.json"

def usage : String :=
  "Usage: parse PATH [OPTIONS] | show FILE [OPTIONS], with a snapshot on standard input"

/-- Writes a file and the folders above it. -/
def writeFile (path : String) (content : List UInt8) : IO Unit := do
  IO.FS.createDirAll (Path.relative (Path.parts path).dropLast)
  IO.FS.writeBinFile path ⟨content.toArray⟩

/-- Shows an outcome and writes the files that were not there before. -/
def deliver (before : Workspace) (outcome : Outcome) : IO Unit := do
  match outcome.output with
  | none => IO.eprintln usage
  | some output => IO.print output
  for report in outcome.reports do
    IO.eprintln (report.severity.name ++ " " ++ report.message)
  for (path, content) in outcome.workspace.filesBeyond before do
    writeFile path content
  match outcome.failure with
  | none => pure ()
  | some failure => IO.eprintln failure.message

end SyntaxMining.Command

open SyntaxMining in
def main (arguments : List String) : IO UInt32 := do
  let text ← (← IO.getStdin).readToEnd
  let snapshot := (Json.parse? text.length text).getD .null
  let before := Snapshot.workspace [] snapshot
  let outcome := Command.run before Command.defaultConfig arguments
  Command.deliver before outcome
  return UInt32.ofNat outcome.exit
