import AssessmentItems.CommandLine

/-!
The program: reads files and the standard input, prints, and exits.
-/
namespace AssessmentItems

/-- The kind of a fault, for all words on it. -/
def describe (_ : Text) : JsonFault → Text
  | .endOfText => "Eof"
  | .malformed => "Syntax"
  | .wrongShape => "Data"

/-- The rest of a stream, with `start` before it. -/
partial def readRest (stream : IO.FS.Stream) (start : String) : IO String := do
  let line ← stream.getLine
  if line.isEmpty then return start
  readRest stream (start ++ line)

/-- The text of a source, unless it cannot be read. -/
def readSource (source : CommandLine.Source) : IO (Option Text) := do
  try
    match source with
    | .standardInput => return some (← readRest (← IO.getStdin) "").toList
    | .file path => return some (← IO.FS.readFile (String.ofList path)).toList
  catch _ => return none

end AssessmentItems

open AssessmentItems in
def main (args : List String) : IO UInt32 := do
  let outcome ← CommandLine.runArguments describe readSource (args.map String.toList)
  IO.print (String.ofList outcome.output)
  return outcome.exit.toUInt32
