import QLanguage.Token.Basic

/-!
# Diagnostics

What is wrong with a declaration or an expression that cannot be read, and where. Two diagnostics
are the same finding when they ask for the same thing and found the same lexeme, wherever it
stands; a declaration without a value is known by its place.
-/

namespace QLanguage

/-- A reason why a source cannot be read. -/
inductive Diagnostic where
  /-- A token of one kind was asked for and another one stands there. -/
  | unexpected (expected : Kind) (found : Token)
  /-- A token that starts no expression. -/
  | expectedExpression (found : Token)
  /-- A token that is no pattern. -/
  | expectedPattern (found : Token)
  /-- Behind the equals sign stands nothing that starts an expression. The source and its name are
  kept so that the finding can be shown on its own. -/
  | missingValue (name : String) (span : Span) (source sourceName : Option String)
  /-- The source ends too early. -/
  | endOfInput (offset : Option Int)
deriving Repr, DecidableEq

namespace Diagnostic

/-- The offset that a diagnostic points at. -/
def start : Diagnostic → Option Int
  | .unexpected _ found | .expectedExpression found | .expectedPattern found =>
    some found.span.start
  | .missingValue _ span _ _ => some span.start
  | .endOfInput offset => offset

/-- The offset behind what a diagnostic points at. -/
def stop : Diagnostic → Option Int
  | .unexpected _ found | .expectedExpression found | .expectedPattern found =>
    some found.span.stop
  | .missingValue _ span _ _ => some span.stop
  | .endOfInput offset => offset

/-- The template of what is said of a diagnostic. -/
def template : Diagnostic → String
  | .unexpected _ _ => "expected \x7b\x7d, but found '\x7b\x7d'"
  | .expectedExpression _ => "expected an expression, but found '\x7b\x7d'"
  | .expectedPattern _ => "expected a pattern, but found '\x7b\x7d'"
  | .missingValue _ _ _ _ => "declaration of '\x7b\x7d' has no value"
  | .endOfInput _ => "reached the end of the input"

/-- What the template of a diagnostic is filled with. -/
def arguments : Diagnostic → List String
  | .unexpected expected found => [expected.describe, found.lexeme.display]
  | .expectedExpression found | .expectedPattern found => [found.lexeme.display]
  | .missingValue name _ _ _ => [name]
  | .endOfInput _ => []

/-- The debug form of a diagnostic, which shows what makes it the finding that it is. -/
def debug : Diagnostic → String
  | .unexpected expected found =>
    "UnexpectedSymbol(expected=" ++ quoted expected.label ++ ", found=" ++ found.lexeme.debug ++ ")"
  | .expectedExpression found => "ExpectedExpression(found=" ++ found.lexeme.debug ++ ")"
  | .expectedPattern found => "ExpectedPattern(found=" ++ found.lexeme.debug ++ ")"
  | .missingValue _ span _ _ =>
    "MissingValueInValueDeclaration(span=(" ++ toString span.start ++ ", " ++ toString span.stop ++
      "))"
  | .endOfInput _ => "EndOfInput()"

/-- Whether two diagnostics are the same finding. -/
def agrees : Diagnostic → Diagnostic → Bool
  | .unexpected expected found, .unexpected expected' found' =>
    expected == expected' && found.lexeme.agrees found'.lexeme
  | .expectedExpression found, .expectedExpression found' => found.lexeme.agrees found'.lexeme
  | .expectedPattern found, .expectedPattern found' => found.lexeme.agrees found'.lexeme
  | .missingValue _ span _ _, .missingValue _ span' _ _ => span == span'
  | .endOfInput _, .endOfInput _ => true
  | _, _ => false

end Diagnostic

end QLanguage
