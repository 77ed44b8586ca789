import QLanguage.Token.Cursor
import QLanguage.Tree.Basic

/-!
# Reading expressions

The grammar, in the order in which alternatives are tried:

    expression ::= string | name "(" [expression ("," expression)*] ")" | name | function
    function   ::= clause (";" clause)*
    clause     ::= "(" [pattern ("," pattern)*] ")" "{" expression "}"
    pattern    ::= name

One token of look-ahead decides everywhere. Nesting is limited: `expression` counts the levels that
are left and stops when there are none. Rows of arguments, patterns and clauses may be as long as
the source.
-/

namespace QLanguage.Reading

/-- Reads the items that each stand behind one more `mark`, at most `fuel` of them. -/
def itemsAfter {α : Type} (mark : Punct) (item : Reading α) : Nat → Reading (List α)
  | 0 => return []
  | fuel + 1 => do
    if ← accept mark then
      let first ← item
      return first :: (← itemsAfter mark item fuel)
    else return []

/-- Reads an item and one more behind each `mark`. No row is longer than what is left to read. -/
def row {α : Type} (mark : Punct) (item : Reading α) : Reading (List α) := do
  let first ← item
  return first :: (← itemsAfter mark item (← get).rest.length)

/-- Reads what stands between parentheses whose opening one has been taken: nothing, or a row with
commas. -/
def parenthesised {α : Type} (item : Reading α) : Reading (List α) := do
  if ← accept .closeParen then return []
  else
    let items ← row .comma item
    let _ ← expect (.punct .closeParen)
    return items

/-- Reads a pattern. -/
def pattern : Reading Pattern := do
  let token ← next
  match token.lexeme with
  | .identifier name => return .bind name
  | _ => throw (.diagnostic (.expectedPattern token))

/-- Reads a clause whose opening parenthesis has been taken. -/
def clause (expression : Reading Expr) : Reading Clause := do
  let patterns ← parenthesised pattern
  let _ ← expect (.punct .openBrace)
  let body ← expression
  let _ ← expect (.punct .closeBrace)
  return .mk patterns body

/-- Reads a function whose first opening parenthesis has been taken. -/
def function (expression : Reading Expr) : Reading Expr := do
  let first ← clause expression
  let more := do
    let _ ← expect (.punct .openParen)
    clause expression
  return .function first (← itemsAfter .semicolon more (← get).rest.length)

/-- Reads an expression that nests at most `depth` levels. -/
def expression : Nat → Reading Expr
  | 0 => throw .tooDeep
  | depth + 1 => do
    let token ← next
    match token.lexeme with
    | .string text => return .string text
    | .identifier name =>
      if ← accept .openParen then return .call name (← parenthesised (expression depth))
      else return .variable name
    | .punct .openParen => function (expression depth)
    | _ => throw (.diagnostic (.expectedExpression token))

/-- Reads an expression and the end of the source behind it. -/
def wholeExpression (depth : Nat) : Reading Expr := do
  let e ← expression depth
  match ← peek with
  | none => return e
  | some _ =>
    let token ← next
    throw (.diagnostic (.unexpected .endOfInput token))

end QLanguage.Reading

namespace QLanguage

/-- The levels to which expressions may nest, in reading and in evaluation. -/
def nestingLimit : Nat := 1000

/-- Reads a source as one expression that nests at most `depth` levels. -/
def parseExpression (depth : Nat) (source : String) : Except Stop Expr :=
  ((Reading.wholeExpression depth).run (Cursor.ofSource source)).1

end QLanguage
