import QLanguage.Reading.Expression
import QLanguage.Tree.Source

/-!
# Reading modules

A module is a row of declarations, each a name, an equals sign and an expression. A malformed
declaration does not end the reading. Its diagnostic is recorded and the token at fault stays
taken. A declaration that fails at its equals sign is given up right there; one that fails at its
first token or inside its value is skipped up to the next name with an equals sign behind it, so
that the rest of a broken value is not read as more declarations.

The entries of a module keep declarations and diagnostics in the order in which they were met.
-/

namespace QLanguage

/-- What the reading of one declaration comes to. -/
abbrev Entry := Except Diagnostic Declaration

namespace Reading

/-- Whether a name with an equals sign behind it comes next. -/
def atDeclaration : Reading Bool := do
  match (← get).rest with
  | .token name :: .token mark :: _ =>
    return name.kind = .identifier && mark.kind = .punct .equal
  | .token name :: .overlong digits _ :: _ =>
    -- Only a name makes the reader look further ahead.
    if name.kind = .identifier then throw (.overlong digits) else return false
  | _ => return false

/-- Skips at most `fuel` tokens, up to the next declaration or the end of the source. -/
def skipWithin : Nat → Reading Unit
  | 0 => return ()
  | fuel + 1 => do
    match ← peek with
    | none => return ()
    | some _ =>
      if ← atDeclaration then return ()
      else
        let _ ← next
        skipWithin fuel

/-- Skips the tokens up to the next declaration or the end of the source. -/
def skipToDeclaration : Reading Unit := do skipWithin (← get).rest.length

/-- Whether an expression may start with a lexeme. -/
def startsExpression : Lexeme → Bool
  | .string _ | .identifier _ | .punct .openParen => true
  | _ => false

/-- Reads the value of a declaration in a source of a given name and text. -/
def value (depth : Nat) (sourceName source name : String) : Reading Expr := do
  match ← peek with
  | some token =>
    if startsExpression token.lexeme then expression depth
    else
      let _ ← next
      throw (.diagnostic (.missingValue name token.span (some source) (some sourceName)))
  | none =>
    let stop : Int := (← get).length
    throw (.diagnostic (.missingValue name ⟨stop, stop⟩ (some source) (some sourceName)))

/-- Runs a reading and skips to the next declaration if it meets a malformed source. -/
def orSkip {α : Type} (reading : Reading α) : Reading α :=
  tryCatch reading fun stop => do
    match stop with
    | .diagnostic d =>
      skipToDeclaration
      throw (.diagnostic d)
    | stop => throw stop

/-- Reads a declaration. -/
def declaration (depth : Nat) (sourceName source : String) : Reading Declaration := do
  let head ← next
  match head.lexeme with
  | .identifier name =>
    let _ ← expect (.punct .equal)
    return ⟨name, ← orSkip (value depth sourceName source name)⟩
  | _ =>
    skipToDeclaration
    throw (.diagnostic (.unexpected .identifier head))

/-- Runs a reading and keeps the diagnostic of a malformed source as its result. -/
def recorded {α : Type} (reading : Reading α) : Reading (Except Diagnostic α) :=
  tryCatch (do return .ok (← reading)) fun stop => do
    match stop with
    | .diagnostic d => return .error d
    | stop => throw stop

/-- Reads at most `fuel` declarations, up to the end of the source. -/
def entriesWithin (depth : Nat) (sourceName source : String) : Nat → Reading (List Entry)
  | 0 => return []
  | fuel + 1 => do
    match ← peek with
    | none => return []
    | some _ =>
      let entry ← recorded (declaration depth sourceName source)
      return entry :: (← entriesWithin depth sourceName source fuel)

/-- Reads all declarations of a source. Each takes a token at least, so there are no more of them
than there are lexemes. -/
def entries (depth : Nat) (sourceName source : String) : Reading (List Entry) := do
  entriesWithin depth sourceName source (← get).rest.length

end Reading

/-- A module with the diagnostics met in reading it. -/
structure Parsed where
  /-- The declarations that could be read. -/
  module : Module
  /-- What was wrong with the others, in source order. -/
  diagnostics : List Diagnostic
deriving DecidableEq

/-- The module of a list of entries. -/
def Parsed.ofEntries (name : String) (entries : List Entry) : Parsed :=
  { module :=
      { name := name
        items := entries.filterMap fun
          | .ok declaration => some declaration
          | .error _ => none }
    diagnostics := entries.filterMap fun
      | .ok _ => none
      | .error d => some d }

/-- Reads a source as a module in which expressions nest at most `depth` levels. -/
def parseModule (depth : Nat) (name source : String) : Except Stop Parsed :=
  ((Reading.entries depth name source).run (Cursor.ofSource source)).1.map (Parsed.ofEntries name)

/-- Whether the source form of a module reads as the same module, without a diagnostic. -/
def Module.readsBack (m : Module) : Bool :=
  match parseModule nestingLimit m.name m.source with
  | .ok parsed => parsed.diagnostics.isEmpty && parsed.module == m
  | .error _ => false

end QLanguage
