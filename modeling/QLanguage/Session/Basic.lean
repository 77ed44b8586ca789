import QLanguage.Evaluation.Machine
import QLanguage.Files
import QLanguage.Reading.Module
import QLanguage.Report.Reporter

/-!
# Sessions

A session is one source at work: a file that is read and run, or the lines that are entered at the
prompt. It works in a workspace, which has its reporter and what has been written. A step that is
aborted keeps what it changed, and `guarded` puts a step under the reporter.
-/

namespace QLanguage

/-- The name that stands for input at the prompt. -/
def promptName : String := "<in>"

/-- One source at work. -/
structure Session where
  /-- The name of the source in reports. -/
  path : String
  /-- The text of the source. -/
  source : String
  /-- The diagnostics of all readings so far. -/
  diagnostics : List Diagnostic
  /-- The module, once the source has been read. -/
  module? : Option Module
  /-- The machine, once there is one. -/
  machine? : Option Machine
  /-- The results that have not been taken, the latest last. -/
  results : List Expr

/-- A session of a named source that has not been read. -/
def Session.fresh (path source : String) : Session := ⟨path, source, [], none, none, []⟩

/-- Why a session for files gets no source. -/
inductive SourceError where
  /-- There is no file. -/
  | noFile
  /-- The file has the name that stands for input at the prompt. -/
  | reservedName
  /-- The name of the file has a null character. -/
  | nullInPath
  /-- The file cannot be read. -/
  | unreadable (path : String)
deriving Repr, DecidableEq

/-- The abort of a session that gets no source. -/
def Abort.ofSource (colours : Bool) : SourceError → Abort
  | .noFile => note colours "a session needs a file unless it is in command-line mode" []
  | .reservedName => note colours "'\x7b\x7d' is a reserved filename" [promptName]
  | .nullInPath => .failure .nullInPath
  | .unreadable path => note colours "'\x7b\x7d' could not be opened" [path]

/-- The name and the text of a file. It is named by the last component of its path. -/
def fileSource (read : FileReader) (path : String) : Except SourceError (String × String) :=
  if path.toList.contains '\x00' then .error .nullInPath
  else
    match readText? read path with
    | some text => .ok (baseName path, text)
    | none => .error (.unreadable path)

/-- The name and the text of the source that a session for files is about. A text that is given
keeps its name. -/
def sessionSource (read : FileReader) (path source : Option String) :
    Except SourceError (String × String) :=
  match path with
  | none => .error .noFile
  | some path =>
    if path == promptName then .error .reservedName
    else
      match source with
      | some source => .ok (path, source)
      | none => fileSource read path

/-- A session with its reporter and what has been written. -/
structure Workspace where
  /-- The session. -/
  session : Session
  /-- The reporter. -/
  reporter : Reporter
  /-- What has been written, one text after another. -/
  output : List String

/-- Opens a session for the prompt. Faults are not fatal there. -/
def Workspace.openPrompt (reporter : Reporter) (output : List String) : Workspace :=
  { session := .fresh promptName ""
    reporter := { reporter with fatal := false }.register promptName (some "")
    output := output }

/-- Opens a session for a file, or for a text under the name of a file. -/
def Workspace.openFile (read : FileReader) (path source : Option String) (reporter : Reporter)
    (output : List String) : Except Abort Workspace := do
  let (name, text) ← (sessionSource read path source).mapError (.ofSource reporter.colours)
  return { session := .fresh name text
           reporter := reporter.register name (some text)
           output := output }

/-- A step that changes a workspace and gives a result or is aborted. -/
abbrev Work := Step Abort Workspace

namespace Work

/-- Writes texts. -/
def write (texts : List String) : Work Unit :=
  modify fun w => { w with output := w.output ++ texts }

/-- Changes the session. -/
def modifySession (change : Session → Session) : Work Unit :=
  modify fun w => { w with session := change w.session }

/-- Aborts in a way that depends on what the terminal is like. -/
def abort {α : Type} (abort : Bool → Abort) : Work α := do throw (abort (← get).reporter.colours)

/-- The result of a reading. -/
def ofReading {α : Type} : Except Stop α → Work α
  | .ok a => return a
  | .error stop => abort (Abort.ofStop · stop)

/-- The result of an evaluation. -/
def ofEvaluation {α : Type} : Except Halt α → Work α
  | .ok a => return a
  | .error halt => abort (Abort.ofHalt · halt)

/-- Writes what a machine has printed and keeps the machine without it. -/
def keepMachine (machine : Machine) : Work Unit := do
  write [machine.output]
  modifySession fun s => { s with machine? := some { machine with output := "" } }

/-- Runs an evaluation on a machine and keeps the machine. -/
def evaluate {α : Type} (machine : Machine) (step : Eval α) : Work α := do
  let (result, machine) := step.run machine
  keepMachine machine
  ofEvaluation result

/-- Writes a warning, whose message is made from a template and its arguments. -/
def warn (template : String) (args : List String) : Work Unit := do
  let reporter := (← get).reporter
  match Abort.note reporter.colours template args with
  | .fault f => write (reporter.report .warning f)
  | abort => throw abort

/-- Runs a step under the reporter. An abort that goes no further leaves no result. -/
def guarded {α : Type} (step : Work α) : Work (Option α) :=
  tryCatch (do return some (← step)) fun abort => do
    let (texts, onward) := (← get).reporter.guard abort
    write texts
    match onward with
    | some abort => throw abort
    | none => return none

end Work

end QLanguage
