import QLanguage.Text.Quoted
import QLanguage.Decimal.Layout
import QLanguage.Decimal.Numeral

/-!
# Tokens

A token is a lexeme and the span of the source that it was cut from. Two tokens are equal as far as
the language is concerned when their lexemes are: the span only says where to point.
-/

namespace QLanguage

/-- The punctuation characters of the language. -/
inductive Punct where
  /-- `=`, between a name and its value. -/
  | equal
  /-- `,`, between arguments and between patterns. -/
  | comma
  /-- `;`, between the clauses of a function. -/
  | semicolon
  /-- `[`, which no rule of the grammar uses. -/
  | openBracket
  /-- `]`, which no rule of the grammar uses. -/
  | closeBracket
  /-- `(`, before arguments and before patterns. -/
  | openParen
  /-- `)`, after arguments and after patterns. -/
  | closeParen
  /-- An opening brace, before the body of a clause. -/
  | openBrace
  /-- A closing brace, after the body of a clause. -/
  | closeBrace
deriving Repr, DecidableEq

/-- The character of a punctuation mark. -/
def Punct.char : Punct → Char
  | .equal => '='
  | .comma => ','
  | .semicolon => ';'
  | .openBracket => '['
  | .closeBracket => ']'
  | .openParen => '('
  | .closeParen => ')'
  | .openBrace => '\x7b'
  | .closeBrace => '\x7d'

/-- The punctuation mark that a character is, if it is one. -/
def Punct.ofChar? : Char → Option Punct
  | '=' => some .equal
  | ',' => some .comma
  | ';' => some .semicolon
  | '[' => some .openBracket
  | ']' => some .closeBracket
  | '(' => some .openParen
  | ')' => some .closeParen
  | '\x7b' => some .openBrace
  | '\x7d' => some .closeBrace
  | _ => none

/-- The text of a punctuation mark. -/
def Punct.text (p : Punct) : String := p.char.toString

/-- The punctuation mark that a text is, if it is one. -/
def Punct.ofText? (text : String) : Option Punct :=
  match text.toList with
  | [c] => Punct.ofChar? c
  | _ => none

/-- A character reads as the punctuation mark that it writes, and as no other. -/
theorem Punct.ofChar?_eq_some_iff (c : Char) (p : Punct) :
    Punct.ofChar? c = some p ↔ c = p.char := by
  constructor
  · intro h
    unfold Punct.ofChar? at h
    split at h <;> cases h <;> rfl
  · rintro rfl
    cases p <;> rfl

/-- What sort of lexeme something is, or what sort is asked for. -/
inductive Kind where
  /-- A word over the letters and the low line. -/
  | identifier
  /-- Text between quotation marks. -/
  | string
  /-- Decimal digits. -/
  | integer
  /-- Decimal digits with a point before the last of them. -/
  | float
  /-- A character that starts no lexeme. -/
  | invalid
  /-- A punctuation mark. -/
  | punct (p : Punct)
  /-- Anything else that a message may ask for, by its name. -/
  | other (label : String)
deriving Repr, DecidableEq

/-- The end of the source, which is asked for behind a complete expression. -/
def Kind.endOfInput : Kind := .other "end of input"

/-- The name of a kind. -/
def Kind.label : Kind → String
  | .identifier => "identifier"
  | .string => "string literal"
  | .integer => "integer"
  | .float => "float"
  | .invalid => "invalid token"
  | .punct p => p.text
  | .other label => label

/-- The kind of a name. -/
def Kind.ofLabel (label : String) : Kind :=
  match label with
  | "identifier" => .identifier
  | "string literal" => .string
  | "integer" => .integer
  | "float" => .float
  | "invalid token" => .invalid
  | _ =>
    match Punct.ofText? label with
    | some p => .punct p
    | none => .other label

/-- The name of a kind inside a message: punctuation stands between apostrophes. -/
def Kind.describe : Kind → String
  | .punct p => "'" ++ p.text ++ "'"
  | kind => kind.label

/-- A lexeme with the value that it denotes. -/
inductive Lexeme where
  /-- An identifier. -/
  | identifier (name : String)
  /-- A string, with its escapes as they stand in the source. -/
  | string (raw : String)
  /-- An integer. -/
  | integer (value : Int)
  /-- A float. -/
  | float (value : Binary64)
  /-- A punctuation mark. -/
  | punct (p : Punct)
  /-- A character that starts no lexeme. -/
  | invalid (text : String)
  /-- A lexeme made by a caller, of a kind given by its name. -/
  | other (label : String) (text : String)
deriving Repr, DecidableEq

namespace Lexeme

/-- The kind of a lexeme. -/
def kind : Lexeme → Kind
  | .identifier _ => .identifier
  | .string _ => .string
  | .integer _ => .integer
  | .float _ => .float
  | .punct p => .punct p
  | .invalid _ => .invalid
  | .other label _ => .ofLabel label

/-- Floats are positional from `0.0001` up to but not including `10 ^ 16`, keep `.0` behind a whole
number, and have exponents of two digits at least. -/
def floatLayout : NumberLayout :=
  { positionalFrom := -4
    positionalBelow := 16
    wholeSuffix := ".0"
    exponentMark := "e"
    exponentWidth := 2
    infinity := "inf"
    notNumber := "nan" }

/-- The value of a lexeme as text. -/
def text : Lexeme → String
  | .identifier name => name
  | .string raw => raw
  | .integer value => toString value
  | .float value => floatLayout.text value
  | .punct p => p.text
  | .invalid text => text
  | .other _ text => text

/-- The lexeme as messages show it: a string in its quotation marks, punctuation by its name. -/
def display : Lexeme → String
  | .string raw => "\"" ++ raw ++ "\""
  | .other label _ => label
  | lexeme => lexeme.text

/-- The debug form of a lexeme's value: numbers stand bare and texts are quoted. -/
def debugValue : Lexeme → String
  | .integer value => toString value
  | .float value => floatLayout.text value
  | lexeme => quoted lexeme.text

/-- The debug form of a lexeme. -/
def debug (lexeme : Lexeme) : String :=
  "Token(kind=" ++ quoted lexeme.kind.label ++ ", value=" ++ lexeme.debugValue ++ ")"

/-- Whether two lexemes have the same kind and numerically equal values. -/
def agrees : Lexeme → Lexeme → Bool
  | .float a, .float b => a.equal b
  | a, b => a == b

/-- The lexeme of a kind with a value given as text, if the text denotes such a value. -/
def ofLabel (label text : String) : Except NumeralError Lexeme :=
  match Kind.ofLabel label with
  | .identifier => .ok (.identifier text)
  | .string => .ok (.string text)
  | .integer => (readInteger text).map .integer
  | .float => (readFloat text).map .float
  | .invalid => .ok (.invalid text)
  | .punct p => .ok (if text == p.text then .punct p else .other label text)
  | .other label => .ok (.other label text)

end Lexeme

/-- A stretch of the source, from `start` up to but not including `stop`, in characters. The spans
that are cut from a source lie inside it; a caller may name any others. -/
structure Span where
  /-- The offset of the first character. -/
  start : Int
  /-- The offset behind the last character. -/
  stop : Int
deriving Repr, DecidableEq

/-- The empty stretch at the start of the source. -/
def Span.origin : Span := ⟨0, 0⟩

/-- A lexeme and where it stands. -/
structure Token where
  /-- The lexeme. -/
  lexeme : Lexeme
  /-- The stretch of the source that it was cut from. -/
  span : Span
deriving Repr, DecidableEq

/-- The kind of a token's lexeme. -/
def Token.kind (token : Token) : Kind := token.lexeme.kind

end QLanguage
