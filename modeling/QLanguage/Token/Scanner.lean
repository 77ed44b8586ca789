import QLanguage.Token.Cursor

/-!
# Scanners

A scanner cuts the tokens of its source one at a time, when they are asked for. It knows the offset
up to which it has cut, and it keeps a token that was looked at until that is taken. At the end of
the source there is nothing to keep, so every look there tries to cut once more.

It answers as a cursor over the list of all lexemes does, without ever making that list.
-/

namespace QLanguage

/-- A source that is being cut. -/
structure Scanner where
  /-- The source. -/
  source : String
  /-- The offset up to which it has been cut. -/
  position : Nat
  /-- The token that was looked at and not taken. -/
  peeked : Option Token
  /-- The span of the token taken last. -/
  span : Span
deriving Repr, DecidableEq

namespace Scanner

/-- The scanner at the start of a source. -/
def ofSource (source : String) : Scanner := ⟨source, 0, none, .origin⟩

/-- The characters that have not been cut. -/
def ahead (scanner : Scanner) : List Char := scanner.source.toList.drop scanner.position

end Scanner

/-- A step that moves a scanner and gives a result or stops. -/
abbrev Scan := Step Stop Scanner

namespace Scan

/-- Cuts the next token, or finds that only blanks are left. -/
def cutToken : Scan (Option Token) := do
  let scanner ← get
  let start := scanner.position + (scanner.ahead.takeWhile isBlank).length
  match scanner.ahead.dropWhile isBlank with
  | [] =>
    set { scanner with position := start }
    return none
  | c :: cs =>
    let stop := start + (cut c cs).text.length
    -- The scanner moves on before the value is read, so a number that is refused is behind it.
    set { scanner with position := stop }
    match Lexed.ofCut (cut c cs).kind (cut c cs).text ⟨(start : Int), (stop : Int)⟩ with
    | .token token => return some token
    | .overlong digits _ => throw (.overlong digits)

/-- The next token, which is kept, or `none` at the end of the source. -/
def peek : Scan (Option Token) := do
  match (← get).peeked with
  | some token => return some token
  | none =>
    let found ← cutToken
    modify fun scanner => { scanner with peeked := found }
    return found

/-- Takes the next token. -/
def next : Scan Token := do
  match ← peek with
  | none => throw (.diagnostic (.endOfInput (some ((← get).source.length : Int))))
  | some token =>
    modify fun scanner => { scanner with peeked := none, span := token.span }
    return token

/-- Takes the next token, which has to be of a kind. A token of another kind is taken too. -/
def expect (kind : Kind) : Scan Token := do
  let token ← next
  if token.kind = kind then return token
  else throw (.diagnostic (.unexpected kind token))

/-- Takes up to a number of tokens, and fewer only at the end of the source. -/
def takeUpTo : Nat → Scan (List Token)
  | 0 => return []
  | n + 1 => do
    match ← peek with
    | none => return []
    | some _ =>
      let token ← next
      return token :: (← takeUpTo n)

/-- Takes all tokens to the end of the source. There are no more of them than characters. -/
def takeAll : Scan (List Token) := do takeUpTo ((← get).source.length + 1)

end Scan

end QLanguage
