import QLanguage.Decimal.Shortest

/-!
# Layout of numbers

How a binary64 number is laid out once its shortest digits are known: positionally in a window of
magnitudes, and with an exponent outside it.
-/

namespace QLanguage

/-- The choices of a layout. -/
structure NumberLayout where
  /-- The least decimal exponent written positionally. -/
  positionalFrom : Int
  /-- The decimal exponent from which numbers are no longer written positionally. -/
  positionalBelow : Int
  /-- What follows a whole number that is written positionally. -/
  wholeSuffix : String
  /-- The mark before the exponent. -/
  exponentMark : String
  /-- The least number of digits of an exponent. -/
  exponentWidth : Nat
  /-- The text of an infinity. -/
  infinity : String
  /-- The text of what is no number. -/
  notNumber : String

namespace NumberLayout

/-- A number in decimal digits, padded with zeros to a width. -/
def padded (width n : Nat) : String :=
  let digits := Nat.toDigits 10 n
  String.ofList (List.replicate (width - digits.length) '0' ++ digits)

/-- The digits `digits`, of which the first stands for `10 ^ top`, written positionally. -/
def positional (layout : NumberLayout) (digits : List Char) (top : Int) : String :=
  if top < 0 then
    "0." ++ String.ofList (List.replicate ((-top).toNat - 1) '0' ++ digits)
  else
    let width := top.toNat + 1
    if digits.length ≤ width then
      String.ofList (digits ++ List.replicate (width - digits.length) '0') ++ layout.wholeSuffix
    else String.ofList (digits.take width) ++ "." ++ String.ofList (digits.drop width)

/-- The digits `digits`, of which the first stands for `10 ^ top`, written with an exponent. -/
def scientific (layout : NumberLayout) (digits : List Char) (top : Int) : String :=
  let fraction := if digits.length ≤ 1 then "" else "." ++ String.ofList (digits.drop 1)
  let sign := if top < 0 then "-" else "+"
  String.ofList (digits.take 1) ++ fraction ++ layout.exponentMark ++ sign ++
    padded layout.exponentWidth top.natAbs

/-- The text of a number without its sign. -/
def magnitude (layout : NumberLayout) (d : Decimal) : String :=
  let digits := Nat.toDigits 10 d.digits
  let top := d.scale + (digits.length : Int) - 1
  if layout.positionalFrom ≤ top && top < layout.positionalBelow then
    layout.positional digits top
  else layout.scientific digits top

/-- The text of a number. -/
def text (layout : NumberLayout) : Binary64 → String
  | .nan => layout.notNumber
  | .infinite negative => (if negative then "-" else "") ++ layout.infinity
  | .finite negative mantissa exponent =>
    let d := if mantissa == 0 then ⟨0, 0⟩ else Decimal.shortest mantissa exponent
    (if negative then "-" else "") ++ layout.magnitude d

end NumberLayout

end QLanguage
