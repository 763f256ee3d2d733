import PhraseGrammar.CommandLine.Arguments
import PhraseGrammar.CommandLine.Help
import PhraseGrammar.CommandLine.Run

/-! The program: it reads the files that a command names, and does what the command comes to. -/

namespace PhraseGrammar.CommandLine

/-- The bytes of a file, if it can be read. -/
def readFile (path : String) : IO (Option ByteArray) := do
  try return some (← IO.FS.readBinFile path)
  catch _ => return none

/-- Does what a command comes to; a failure is told on the error stream, with its cause. -/
def perform (command : Command) : IO UInt32 := do
  let files ← command.inputs.mapM fun path => return (path, ← readFile path)
  let fail (failure : Failure) : IO UInt32 := do
    IO.eprintln ("Error: " ++ failure.message)
    if let some cause := failure.cause? then
      IO.eprintln ("\nCaused by:\n    " ++ cause.message)
    return 1
  match command.run fun path => (files.lookup path).join with
  | .error failure => fail failure
  | .ok (.print text) =>
    IO.print text
    return 0
  | .ok (.save path bytes) =>
    try
      IO.FS.writeBinFile path bytes
      return 0
    catch _ => fail (.writing path)

end PhraseGrammar.CommandLine

open PhraseGrammar.CommandLine

/-- Runs the program on its arguments; arguments that cannot be understood end it with code two. -/
def main (arguments : List String) : IO UInt32 := do
  match Command.ofArguments arguments with
  | .ok command => perform command
  | .error .help =>
    IO.print usage
    return 0
  | .error .version =>
    IO.print version
    return 0
  | .error .misuse =>
    IO.eprint usage
    return 2
