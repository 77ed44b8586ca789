import QLanguage.Prompt.Input
import QLanguage.Session.Line
import QLanguage.Text.Lines

/-!
# The prompt

Source text with unclosed brackets is held back and joined with the lines that follow until it is
closed; then it is executed under the reporter, and its result is shown. The prompt changes when
text is held back and when that text is done with.
-/

namespace QLanguage

/-- The state of the prompt. -/
structure Shell where
  /-- The session behind the prompt. -/
  workspace : Workspace
  /-- The text that is held back, or an empty text. -/
  pending : String
  /-- The prompt for the next line. -/
  prompt : String

namespace Shell

/-- The prompt of a fresh line. -/
def primaryPrompt : String := "> "

/-- The prompt of a line that continues held back text. -/
def secondaryPrompt : String := ". "

/-- What is shown before the first prompt. -/
def introduction : String :=
  "Q interpreter :: Python backend\nType '?' or 'help' for more information.\n"

/-- What the help command shows. -/
def helpText : String :=
  "Welcome to the Q interpreter!\n\n" ++
  "Q is a tiny expression language with strings and multi-clause functions.\n" ++
  "Each line is either a declaration or an expression.\n\n" ++
  "Try it out by typing 'first = (A, B) \x7b A \x7d'. This binds a function to the \n" ++
  "name 'first'. Next, try typing 'first(\"x\", \"y\")', giving \"x\" as the \n" ++
  "result, or 'print(\"x\")' to see the debug form of a value.\n"

/-- The prompt over a fresh session. -/
def fresh (reporter : Reporter) (output : List String) : Shell :=
  ⟨.openPrompt reporter output, "", primaryPrompt⟩

/-- Writes text. -/
def write (shell : Shell) (text : String) : Shell :=
  { shell with
    workspace := { shell.workspace with output := shell.workspace.output ++ [text] } }

/-- Takes a complete line and shows its result, if it has one. -/
def execute (line : String) : Work Unit := do
  Work.addLine line
  if !(← get).session.results.isEmpty then
    let result ← Work.takeResult
    Work.write [result.source ++ "\n"]

/-- Takes source text: joins it to what is held back, and holds that back or executes it. The prompt
is changed together with the text that is held back, before anything is executed. -/
def enter (shell : Shell) (text : String) : Except Abort Unit × Shell :=
  let line := stripBlanks (shell.pending ++ " " ++ text)
  if isUnclosed line then (.ok (), { shell with pending := line, prompt := secondaryPrompt })
  else if line.isEmpty then (.ok (), { shell with pending := "", prompt := primaryPrompt })
  else
    let (result, workspace) := (Work.guarded (execute line)).run shell.workspace
    (result.map fun _ => (), ⟨workspace, "", primaryPrompt⟩)

/-- Takes one line. The result says whether the prompt is left. -/
def step (shell : Shell) (line : String) : Except Abort Bool × Shell :=
  match classifyLine line (!shell.pending.isEmpty) with
  | .blank => (.ok false, shell)
  | .command .exit _ _ => (.ok true, shell)
  | .command .endOfFile _ _ => (.ok true, shell.write "\n")
  | .command .help _ _ => (.ok false, shell.write helpText)
  | .source text =>
    let (result, shell) := shell.enter text
    (result.map fun _ => false, shell)

/-- Takes lines until the prompt is left, with the prompt written before each of them. -/
def steps (shell : Shell) : List String → Except Abort Unit × Shell
  | [] => (.ok (), shell)
  | line :: more =>
    match (shell.write shell.prompt).step line with
    | (.ok false, shell) => steps shell more
    | (.ok true, shell) => (.ok (), shell)
    | (.error abort, shell) => (.error abort, shell)

/-- Runs the prompt over an input, whose end counts as a last line. -/
def run (shell : Shell) (input : String) : Except Abort Unit × Shell :=
  (shell.write introduction).steps (inputLines input ++ [Command.endOfFile.word])

end Shell

end QLanguage
