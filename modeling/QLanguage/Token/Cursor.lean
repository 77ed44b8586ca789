import QLanguage.Diagnostic
import QLanguage.Step
import QLanguage.Token.Cut

/-!
# A cursor over the lexemes

Reading goes through a cursor over the list of lexemes of one source. `peek` looks at the next
token and `next` takes it; `expect` takes it and checks its kind. An integer that is too long is
refused by whichever of them reaches it first, and the cursor then stands behind it.

A reading that stops keeps the cursor where it stopped, so that a caller may go on from there.
-/

namespace QLanguage

/-- Why a reading stops. -/
inductive Stop where
  /-- The source is malformed here. -/
  | diagnostic (d : Diagnostic)
  /-- An integer of too many digits. -/
  | overlong (digits : Nat)
  /-- Expressions nest too deeply. -/
  | tooDeep
deriving Repr, DecidableEq

/-- A position in the lexemes of a source. -/
structure Cursor where
  /-- The lexemes that are still to be taken. -/
  rest : List Lexed
  /-- The span of the token taken last. -/
  span : Span
  /-- The length of the source. -/
  length : Nat
deriving Repr, DecidableEq

/-- The cursor at the start of a source. -/
def Cursor.ofSource (source : String) : Cursor :=
  { rest := lexemes source, span := .origin, length := source.length }

/-- A step that moves a cursor and gives a result or stops. -/
abbrev Reading := Step Stop Cursor

namespace Reading

/-- The next token, which stays where it is, or `none` at the end of the source. -/
def peek : Reading (Option Token) := do
  let cursor ← get
  match cursor.rest with
  | [] => return none
  | .token token :: _ => return some token
  | .overlong digits _ :: rest =>
    -- The cursor moves on first, so that the next look is behind the integer.
    set { cursor with rest := rest }
    throw (.overlong digits)

/-- Takes the next token. -/
def next : Reading Token := do
  match ← peek with
  | none => throw (.diagnostic (.endOfInput (some ((← get).length : Int))))
  | some token =>
    modify fun cursor => { cursor with rest := cursor.rest.drop 1, span := token.span }
    return token

/-- Takes the next token, which has to be of a kind. A token of another kind is taken too. -/
def expect (kind : Kind) : Reading Token := do
  let token ← next
  if token.kind = kind then return token
  else throw (.diagnostic (.unexpected kind token))

/-- Takes the next token if it is a certain punctuation mark, and says whether it was. -/
def accept (p : Punct) : Reading Bool := do
  match ← peek with
  | some token =>
    if token.kind = .punct p then
      let _ ← next
      return true
    else return false
  | none => return false

/-- At the end of the source there is nothing to see. -/
theorem run_peek_nil (span : Span) (length : Nat) :
    peek.run ⟨[], span, length⟩ = (.ok none, ⟨[], span, length⟩) := rfl

/-- Looking at a token leaves the cursor where it is. -/
theorem run_peek_token (token : Token) (rest : List Lexed) (span : Span) (length : Nat) :
    peek.run ⟨.token token :: rest, span, length⟩ =
      (.ok (some token), ⟨.token token :: rest, span, length⟩) := rfl

/-- An integer that is too long is refused once. -/
theorem run_peek_overlong (digits : Nat) (place span : Span) (rest : List Lexed) (length : Nat) :
    peek.run ⟨.overlong digits place :: rest, span, length⟩ =
      (.error (.overlong digits), ⟨rest, span, length⟩) := rfl

/-- At the end of the source there is nothing to take. -/
theorem run_next_nil (span : Span) (length : Nat) :
    next.run ⟨[], span, length⟩ =
      (.error (.diagnostic (.endOfInput (some (length : Int)))), ⟨[], span, length⟩) := rfl

/-- Taking a token moves the cursor behind it. -/
theorem run_next_token (token : Token) (rest : List Lexed) (span : Span) (length : Nat) :
    next.run ⟨.token token :: rest, span, length⟩ = (.ok token, ⟨rest, token.span, length⟩) := rfl

/-- Takes up to a number of tokens, and fewer only at the end of the source. -/
def takeUpTo : Nat → Reading (List Token)
  | 0 => return []
  | n + 1 => do
    match ← peek with
    | none => return []
    | some _ =>
      let token ← next
      return token :: (← takeUpTo n)

/-- Takes all tokens to the end of the source. -/
def takeAll : Reading (List Token) := do takeUpTo (← get).rest.length

end Reading

/-- The tokens of a source, or the number of digits of the first integer that is too long. -/
def tokens (source : String) : Except Stop (List Token) :=
  (Reading.takeAll.run (Cursor.ofSource source)).1

end QLanguage
