import QLanguage.Session.Basic

/-!
# Reading and running a program

A session that is read keeps its module even if there were diagnostics, and diagnostics add up when
it is read again. Running evaluates the declarations and calls the function that a program starts
with.
-/

namespace QLanguage.Work

/-- Warns of declarations that the built-in function hides. -/
def warnOfHidden : List Declaration → Work Unit
  | [] => return ()
  | d :: ds => do
    if d.name = printName then
      warn "'\x7b\x7d' is a built-in, calls will not reach this declaration" [d.name]
    warnOfHidden ds

/-- Reads the source. All diagnostics so far are raised together; a declaration of the built-in
function is only warned about. -/
def parse : Work Module := do
  let session := (← get).session
  let parsed ← ofReading (parseModule nestingLimit session.path session.source)
  let diagnostics := session.diagnostics ++ parsed.diagnostics
  -- The module is kept before the diagnostics are looked at, and a later run takes it as it is.
  modifySession fun s => { s with module? := some parsed.module, diagnostics := diagnostics }
  if !diagnostics.isEmpty then
    abort (Abort.ofDiagnostics · session.path diagnostics)
  warnOfHidden parsed.module.items
  return parsed.module

/-- Evaluates the declarations of a module. The machine is kept only if that succeeds. -/
def load (m : Module) : Work Machine := do
  match Machine.load nestingLimit m with
  | (.ok _, machine) =>
    keepMachine machine
    return { machine with output := "" }
  | (.error halt, machine) =>
    write [machine.output]
    abort (Abort.ofHalt · halt)

/-- Reads the source if that has not been done, and runs the program. A file that ran is
forgotten. -/
def runProgram : Work Expr := do
  let m ← match (← get).session.module? with
    | some m => pure m
    | none => parse
  let machine ← load m
  let result ← evaluate machine (Eval.callEntry nestingLimit)
  modifySession fun s => { s with results := s.results ++ [result] }
  modify fun w => { w with reporter := w.reporter.remove w.session.path }
  return result

end QLanguage.Work
