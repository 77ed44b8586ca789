import QLanguage.Text.Blank
import QLanguage.Text.Digit
import QLanguage.Text.Quoted
import QLanguage.Decimal.Binary64

/-!
# Numerals

Reading a number from a text that stands alone, such as the value of a token given by a caller. The
digits may be of any script and the blanks around the number any beyond ASCII, but of the ASCII
characters only those from U+0009 to U+000D and the space are skipped. A sign may lead, and single
low lines may separate digits.

An integer of more than `digitLimit` digits is refused, whatever follows its digits.
-/

namespace QLanguage

/-- The most digits that an integer may have. -/
def digitLimit : Nat := 4300

/-- Why a text is not read as a number. -/
inductive NumeralError where
  /-- The text is no integer. -/
  | notInteger (text : String)
  /-- The text is no float. -/
  | notFloat (text : String)
  /-- The integer has too many digits. -/
  | overlong (digits : Nat)
deriving Repr, DecidableEq

/-- What is said of a text that is not read as a number. A text that is no integer is shown up to a
length of 200 characters. -/
def NumeralError.message : NumeralError → String
  | .notInteger text =>
    "invalid literal for int() with base 10: " ++ String.ofList ((quoted text).toList.take 200)
  | .notFloat text => "could not convert string to float: " ++ quoted text
  | .overlong digits =>
    "Exceeds the limit (" ++ toString digitLimit ++
      " digits) for integer string conversion: value has " ++ toString digits ++
      " digits; use sys.set_int_max_str_digits() to increase the limit"

/-- The value of ASCII digits read from left to right. -/
def digitsValue (digits : List Char) : Nat :=
  digits.foldl (fun n c => 10 * n + (c.toNat - '0'.toNat)) 0

/-- The ASCII character that a character counts as in a numeral: a digit of another script as the
digit of its value, another blank as a space, and anything else beyond ASCII as a question mark,
which no numeral has. -/
def numeralCharacter (c : Char) : Char :=
  if c.toNat < 0x80 then c
  else if isBlank c then ' '
  else
    match decimalValue? c with
    | some n => Nat.digitChar n
    | none => '?'

/-- Whether a character is skipped before and behind a numeral. -/
def isNumeralSpace (c : Char) : Bool := c == ' ' || (0x09 ≤ c.toNat && c.toNat ≤ 0x0d)

/-- The characters of a numeral, without the spaces before it. -/
def numeralCharacters (text : String) : List Char :=
  (text.toList.map numeralCharacter).dropWhile isNumeralSpace

/-- A sign, if one leads, and what follows it. -/
def splitSign : List Char → Bool × List Char
  | '-' :: rest => (true, rest)
  | '+' :: rest => (false, rest)
  | cs => (false, cs)

/-- Whether a character may stand in a row of digits. -/
def isDigitOrLowLine (c : Char) : Bool := c.isDigit || c == '_'

/-- Digits with single low lines between them taken out, if there are no other characters. -/
def plainDigits? : List Char → Option (List Char)
  | [] => some []
  | c :: '_' :: d :: rest =>
    if c.isDigit && d.isDigit then (plainDigits? (d :: rest)).map (c :: ·) else none
  | c :: rest => if c.isDigit then (plainDigits? rest).map (c :: ·) else none

/-- The integer of a sign and digits. -/
def signedValue (negative : Bool) (digits : List Char) : Int :=
  if negative then -(digitsValue digits : Int) else (digitsValue digits : Int)

/-- The integer that a text stands for. -/
def readInteger (text : String) : Except NumeralError Int :=
  let (negative, body) := splitSign (numeralCharacters text)
  match plainDigits? (body.takeWhile isDigitOrLowLine) with
  | some (d :: ds) =>
    -- The digits are counted before anything behind them is looked at.
    if (d :: ds).length > digitLimit then .error (.overlong (d :: ds).length)
    else if (body.dropWhile isDigitOrLowLine).all isNumeralSpace then
      .ok (signedValue negative (d :: ds))
    else .error (.notInteger text)
  | _ => .error (.notInteger text)

/-- The words for numbers that have no digits. -/
def readWord? (negative : Bool) (word : List Char) : Option Binary64 :=
  match String.ofList (word.map Char.toLower) with
  | "inf" | "infinity" => some (.infinite negative)
  | "nan" => some .nan
  | _ => none

/-- The exponent behind a mantissa: none, or a mark, a sign and digits. -/
def readExponent? : List Char → Option Int
  | [] => some 0
  | c :: rest =>
    if c == 'e' || c == 'E' then
      let (negative, body) := splitSign rest
      match plainDigits? body with
      | some (d :: ds) => some (signedValue negative (d :: ds))
      | _ => none
    else none

/-- The binary64 number that the characters of a numeral stand for. -/
def readFloatFrom? (characters : List Char) : Option Binary64 :=
  let (negative, body) := splitSign characters
  let whole := body.takeWhile isDigitOrLowLine
  let rest := body.dropWhile isDigitOrLowLine
  let (fraction, rest) :=
    match rest with
    | '.' :: rest => (rest.takeWhile isDigitOrLowLine, rest.dropWhile isDigitOrLowLine)
    | _ => ([], rest)
  match plainDigits? whole, plainDigits? fraction, readExponent? rest with
  | some w, some f, some e =>
    if w.isEmpty && f.isEmpty then none
    else some (Binary64.ofDecimal negative (digitsValue (w ++ f)) (e - (f.length : Int)))
  | _, _, _ => readWord? negative body

/-- The binary64 number that a text stands for. -/
def readFloat (text : String) : Except NumeralError Binary64 :=
  match readFloatFrom? ((numeralCharacters text).reverse.dropWhile isNumeralSpace).reverse with
  | some value => .ok value
  | none => .error (.notFloat text)

end QLanguage
