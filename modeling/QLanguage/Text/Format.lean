import QLanguage.Text.Digit

/-!
# Formats of text

How a text is fitted into a column: a fill character and an alignment, a least width, and a
precision, which cuts the text to a length. In a format these follow each other as in `*^9.3s`, and
a zero before the width stands for zeros as fill.

The notation is shared with numbers. Signs, separators and the other marks of numbers are therefore
read, and then refused for a text; the first thing that is wrong is the one reported.
-/

namespace QLanguage

-- Powers of natural numbers are those of the core library, whatever else is imported.
local instance (priority := high) natPow : Pow Nat Nat := instPowNat

/-- The greatest number that a template or a format may name. -/
def greatestNumber : Nat := 2 ^ (63 : Nat) - 1

/-- The width from which a text is too wide to be built. -/
def widthLimit : Nat := 2 ^ (32 : Nat)

/-- Why a text cannot be formatted. -/
inductive FormatError where
  /-- A number is too great. -/
  | manyDigits
  /-- Both separators are asked for. -/
  | twoSeparators
  /-- No number follows the point. -/
  | noPrecision
  /-- Something is left over. -/
  | malformed (format : String)
  /-- A separator that does not go with the presentation. -/
  | badSeparator (separator presentation : Char)
  /-- A presentation that is not for texts. -/
  | unknownPresentation (presentation : Char)
  /-- A sign. -/
  | sign
  /-- A space in place of a sign. -/
  | space
  /-- The mark that turns a negative zero into a positive one. -/
  | negativeZero
  /-- The mark of the alternate form. -/
  | alternate
  /-- The alignment that pads behind a sign. -/
  | padBehindSign
  /-- The width is beyond all bounds. -/
  | tooWide
deriving Repr, DecidableEq

/-- A character inside a message: itself where it is visible ASCII, and else its code point. -/
def shownCharacter (limit : Nat) (c : Char) : String :=
  if 32 < c.toNat && c.toNat < limit then c.toString
  else "\\x" ++ String.ofList (Nat.toDigits 16 c.toNat)

/-- What is said of a text that cannot be formatted. -/
def FormatError.message : FormatError → String
  | .manyDigits => "Too many decimal digits in format string"
  | .twoSeparators => "Cannot specify both ',' and '_'."
  | .noPrecision => "Format specifier missing precision"
  | .malformed format => "Invalid format specifier '" ++ format ++ "' for object of type 'str'"
  | .badSeparator separator presentation =>
    "Cannot specify '" ++ separator.toString ++ "' with '" ++
      shownCharacter 128 presentation ++ "'."
  | .unknownPresentation presentation =>
    "Unknown format code '" ++ shownCharacter 128 presentation ++ "' for object of type 'str'"
  | .sign => "Sign not allowed in string format specifier"
  | .space => "Space not allowed in string format specifier"
  | .negativeZero => "Negative zero coercion (z) not allowed in string format specifier"
  | .alternate => "Alternate form (#) not allowed in string format specifier"
  | .padBehindSign => "'=' alignment not allowed in string format specifier"
  | .tooWide => ""

/-- Where a text stands in its column. -/
inductive Alignment where
  /-- At the left end. -/
  | left
  /-- At the right end. -/
  | right
  /-- In the middle, and further left if that is not exact. -/
  | centre
  /-- At the right end, with the fill behind a sign. -/
  | behindSign
deriving Repr, DecidableEq

/-- The alignment of a mark. -/
def Alignment.ofMark? : Char → Option Alignment
  | '<' => some .left
  | '>' => some .right
  | '^' => some .centre
  | '=' => some .behindSign
  | _ => none

/-- A format, for texts and for numbers. -/
structure TextFormat where
  /-- The fill character. -/
  fill : Char
  /-- The alignment. -/
  alignment : Alignment
  /-- The sign mark. -/
  sign : Option Char
  /-- Whether a negative zero becomes positive. -/
  positiveZero : Bool
  /-- Whether the alternate form is asked for. -/
  alternate : Bool
  /-- The least width. -/
  width : Option Nat
  /-- The separator between groups of digits. -/
  separator : Option Char
  /-- The length that a text is cut to. -/
  precision : Option Nat
  /-- The presentation. -/
  presentation : Char
deriving Repr, DecidableEq

namespace TextFormat

/-- The fill character and the alignment at the front of a format, if they are given. -/
def takeAlignment : List Char → Option Char × Option Alignment × List Char
  | c :: d :: rest =>
    match Alignment.ofMark? d, Alignment.ofMark? c with
    | some alignment, _ => (some c, some alignment, rest)
    | none, some alignment => (none, some alignment, d :: rest)
    | none, none => (none, none, c :: d :: rest)
  | [c] =>
    match Alignment.ofMark? c with
    | some alignment => (none, some alignment, [])
    | none => (none, none, [c])
  | [] => (none, none, [])

/-- The next character, if it is a mark of a kind. -/
def takeMark (isMark : Char → Bool) : List Char → Option Char × List Char
  | c :: rest => if isMark c then (some c, rest) else (none, c :: rest)
  | [] => (none, [])

/-- The number at the front of a format, if there is one. -/
def takeNumber (cs : List Char) : Except FormatError (Option Nat × List Char) :=
  let digits := cs.takeWhile isDecimalDigit
  if digits.isEmpty then .ok (none, cs)
  else if decimalNumber digits > greatestNumber then .error .manyDigits
  else .ok (some (decimalNumber digits), cs.dropWhile isDecimalDigit)

/-- The separator at the front of a format, if there is one. -/
def takeSeparator : List Char → Except FormatError (Option Char × List Char)
  | ',' :: '_' :: _ | '_' :: ',' :: _ => .error .twoSeparators
  | ',' :: rest => .ok (some ',', rest)
  | '_' :: rest => .ok (some '_', rest)
  | cs => .ok (none, cs)

/-- The precision at the front of a format, if there is one. -/
def takePrecision : List Char → Except FormatError (Option Nat × List Char)
  | '.' :: rest => do
    match ← takeNumber rest with
    | (none, _) => .error .noPrecision
    | found => .ok found
  | cs => .ok (none, cs)

/-- Whether a presentation may have a separator. -/
def allowsSeparator (separator presentation : Char) : Bool :=
  "defgEG%F\x00".toList.contains presentation ||
    (separator == '_' && "boxX".toList.contains presentation)

/-- Reads a format. -/
def parse (cs : List Char) : Except FormatError TextFormat := do
  let (fill, alignment, rest) := takeAlignment cs
  let (sign, rest) := takeMark (fun c => c == '+' || c == '-' || c == ' ') rest
  let (positiveZero, rest) := takeMark (· == 'z') rest
  let (alternate, rest) := takeMark (· == '#') rest
  -- A zero is the fill, unless a fill character is given; it is no part of the width.
  let (zero, rest) := if fill.isSome then (none, rest) else takeMark (· == '0') rest
  let (width, rest) ← takeNumber rest
  let (separator, rest) ← takeSeparator rest
  let (precision, rest) ← takePrecision rest
  let presentation ←
    match rest with
    | [] => pure 's'
    | [c] => pure c
    | _ => throw (.malformed (String.ofList cs))
  match separator with
  | some mark =>
    if !allowsSeparator mark presentation then throw (.badSeparator mark presentation)
  | none => pure ()
  return { fill := (fill.or zero).getD ' '
           alignment := alignment.getD .left
           sign := sign
           positiveZero := positiveZero.isSome
           alternate := alternate.isSome
           width := width
           separator := separator
           precision := precision
           presentation := presentation }

/-- What is wrong with a format for a text. -/
def textFault? (format : TextFormat) : Option FormatError :=
  if format.presentation != 's' then some (.unknownPresentation format.presentation)
  else if format.sign == some ' ' then some .space
  else if format.sign.isSome then some .sign
  else if format.positiveZero then some .negativeZero
  else if format.alternate then some .alternate
  else if format.alignment == .behindSign then some .padBehindSign
  else none

/-- A text cut to the precision and padded to the width. -/
def lay (format : TextFormat) (text : List Char) : List Char :=
  let shown :=
    match format.precision with
    | some length => text.take length
    | none => text
  let missing := format.width.getD 0 - shown.length
  let before :=
    match format.alignment with
    | .right => missing
    | .centre => missing / 2
    | .left | .behindSign => 0
  List.replicate before format.fill ++ shown ++ List.replicate (missing - before) format.fill

/-- A text in a format. -/
def apply (format : TextFormat) (text : List Char) : Except FormatError (List Char) :=
  match format.textFault? with
  | some e => .error e
  | none =>
    if format.width.getD 0 ≥ widthLimit then .error .tooWide else .ok (format.lay text)

/-- A laid out text is as wide as the format asks for, or as long as its cut text. -/
theorem length_lay (format : TextFormat) (text : List Char) :
    (format.lay text).length =
      max (format.width.getD 0) (min (format.precision.getD text.length) text.length) := by
  unfold lay
  cases format.precision <;> cases format.alignment <;> simp <;> omega

end TextFormat

/-- A text in a format that is given as characters. The empty format leaves it as it is. -/
def formatText (format : List Char) (text : List Char) : Except FormatError (List Char) :=
  if format.isEmpty then .ok text
  else do (← TextFormat.parse format).apply text

end QLanguage
