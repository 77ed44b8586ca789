import QLanguage.CommandLine.Options
import QLanguage.Prompt.Shell
import QLanguage.Session.Program

/-!
# The command line

The program runs its files in order, or only reads them, and stops at the first one that fails;
without files it shows the prompt. One reporter serves all files.
-/

namespace QLanguage

/-- What a run of the program comes to. -/
structure Outcome where
  /-- What is written to the standard output, one text after another. -/
  output : List String
  /-- What is written to the standard error. -/
  errors : String
  /-- What ends the run early. -/
  abort : Option Abort

namespace CommandLine

/-- Reads or runs one file. -/
def handleFile (read : FileReader) (parseOnly : Bool) (path : String) (reporter : Reporter)
    (output : List String) : Except Abort Unit × Reporter × List String :=
  match Workspace.openFile read (some path) none reporter output with
  | .error abort => (.error abort, reporter, output)
  | .ok workspace =>
    let step : Work Unit :=
      if parseOnly then do let _ ← Work.parse
      else do let _ ← Work.runProgram
    let (result, workspace) := step.run workspace
    (result, workspace.reporter, workspace.output)

/-- Reads or runs files up to the first one that fails. -/
def handleFiles (read : FileReader) (parseOnly : Bool) :
    List String → Reporter → List String → Except Abort Unit × Reporter × List String
  | [], reporter, output => (.ok (), reporter, output)
  | path :: more, reporter, output =>
    match handleFile read parseOnly path reporter output with
    | (.ok _, reporter, output) => handleFiles read parseOnly more reporter output
    | failed => failed

/-- The end of a run under the reporter. -/
def conclude : Except Abort Unit × Reporter × List String → Outcome
  | (.ok _, _, output) => ⟨output, "", none⟩
  | (.error abort, reporter, output) =>
    let (texts, onward) := reporter.guard abort
    ⟨output ++ texts, "", onward⟩

/-- Runs the prompt over an input, on a terminal with or without colours. -/
def runPrompt (colours : Bool) (input : String) : Outcome :=
  let (result, shell) := (Shell.fresh (.fresh true colours) []).run input
  conclude (result, shell.workspace.reporter, shell.workspace.output)

/-- What is shown instead of a run. -/
def refuse : Refusal → Outcome
  | .help => ⟨[Options.helpText], "", some (.exit 0)⟩
  | .misuse message => ⟨[], Options.misuseText message, some (.exit 2)⟩

/-- Runs the program on its arguments, on a terminal with or without colours. -/
def run (colours : Bool) (read : FileReader) (arguments : List String) (input : String) : Outcome :=
  match Options.parse arguments with
  | .error refusal => refuse refusal
  | .ok options =>
    if options.files.isEmpty then runPrompt colours input
    else conclude (handleFiles read options.parseOnly options.files (.fresh true colours) [])

end CommandLine

end QLanguage
