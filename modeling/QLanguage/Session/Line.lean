import QLanguage.Session.Basic
import QLanguage.Text.Blank

/-!
# Lines at the prompt

A line that starts with a name and an equals sign is a list of declarations, which are bound in the
running machine; every other line is an expression, whose value becomes a result.
-/

namespace QLanguage

/-- Whether a line starts with a name and an equals sign. -/
def Reading.startsDeclaration : Reading Bool := do
  match ← peek with
  | some first =>
    if first.kind = .identifier then
      let _ ← next
      match ← peek with
      | some second => return second.kind = .punct .equal
      | none => return false
    else return false
  | none => return false

/-- Whether a line is a list of declarations and not an expression. -/
def isDeclaration (line : String) : Except Stop Bool :=
  (Reading.startsDeclaration.run (Cursor.ofSource line)).1

/-- Whether a line has more opening than closing parentheses or braces. -/
def isUnclosed (line : String) : Bool :=
  let count := fun (p : Punct) => line.toList.count p.char
  count .openParen > count .closeParen || count .openBrace > count .closeBrace

namespace Work

/-- Takes one line: declares its declarations, or evaluates its expression to a result. -/
def addLine (line : String) : Work Unit := do
  let machine := (← get).session.machine?.getD .empty
  modifySession fun s => { s with machine? := some machine }
  -- The line is known to the reporter before it is read, so that its diagnostics quote it.
  modify fun w => { w with reporter := w.reporter.register promptName (some line) }
  if ← ofReading (isDeclaration line) then
    let parsed ← ofReading (parseModule nestingLimit promptName line)
    if !parsed.diagnostics.isEmpty then
      abort (Abort.ofDiagnostics · promptName parsed.diagnostics)
    evaluate machine (Eval.declareAll nestingLimit parsed.module.items)
  else
    let expr ← ofReading (parseExpression nestingLimit line)
    let result ← evaluate machine (Eval.eval nestingLimit expr)
    modifySession fun s => { s with results := s.results ++ [result] }

/-- Takes the latest result away. -/
def takeResult : Work Expr := do
  let results := (← get).session.results
  match results.getLast? with
  | none => throw (.failure .noResult)
  | some result =>
    modifySession fun s => { s with results := results.dropLast }
    return result

end Work

end QLanguage
