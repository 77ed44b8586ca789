import QLanguage.CommandLine.Run

/-!
# The program

The outer layer: reads the files that the arguments name, or the lines of the standard input one by
one, and writes what the library answers.
-/

namespace QLanguage

/-- Whether the standard output is for a terminal with colours: as the environment says, and else if
it is a terminal. -/
def wantsColours : IO Bool := do
  if (← IO.getEnv "NO_COLOR").isSome then return false
  else if (← IO.getEnv "FORCE_COLOR").isSome then return true
  else (← IO.getStdout).isTty

/-- The bytes of a file, or `none` if it cannot be read. -/
def readFile? (path : String) : IO (Option ByteArray) := do
  try
    return some (← IO.FS.readBinFile path)
  catch _ => return none

/-- Writes an outcome and gives the exit status of the program. -/
def finish (outcome : Outcome) : IO UInt32 := do
  IO.print (String.join outcome.output)
  IO.eprint outcome.errors
  match outcome.abort with
  | none => return 0
  | some (.exit status) => return status.toNat.toUInt32
  | some (.failure f) =>
    IO.eprintln (f.kind ++ ": " ++ f.message)
    return 1
  | some _ => return 1

/-- Writes what a shell has to show. -/
def flushShell (shell : Shell) : IO Shell := do
  IO.print (String.join shell.workspace.output)
  (← IO.getStdout).flush
  return { shell with workspace := { shell.workspace with output := [] } }

/-- Takes lines from the standard input until the prompt is left or the input ends. -/
partial def promptLoop (shell : Shell) : IO (Except Abort Unit × Shell) := do
  let shell ← flushShell (shell.write shell.prompt)
  let line ← (← IO.getStdin).getLine
  if line.isEmpty then
    let (result, shell) := shell.step Command.endOfFile.word
    return (result.map fun _ => (), shell)
  else
    match shell.step (String.ofList (stripLineEnd line.toList)) with
    | (.ok false, shell) => promptLoop shell
    | (.ok true, shell) => return (.ok (), shell)
    | (.error abort, shell) => return (.error abort, shell)

end QLanguage

open QLanguage in
/-- Runs the program. -/
def main (arguments : List String) : IO UInt32 := do
  let colours ← wantsColours
  match Options.parse arguments with
  | .error refusal => finish (CommandLine.refuse refusal)
  | .ok options =>
    if options.files.isEmpty then
      let shell := (Shell.fresh (.fresh true colours) []).write Shell.introduction
      let (result, shell) ← promptLoop shell
      finish
        (CommandLine.conclude (result, shell.workspace.reporter, shell.workspace.output))
    else
      let contents ← options.files.mapM fun path => return (path, ← readFile? path)
      let read : FileReader := fun path => (contents.lookup path).join
      finish
        (CommandLine.conclude
          (CommandLine.handleFiles read options.parseOnly options.files (.fresh true colours) []))
