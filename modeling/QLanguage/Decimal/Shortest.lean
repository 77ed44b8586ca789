import QLanguage.Decimal.Binary64

/-!
# Shortest decimals

A binary64 number is written with the fewest decimal digits that read back as the same number. For
one digit, two digits and so on, the two neighbours of the value on the decimal grid are tested
against the interval of reals that round to the number; of two neighbours inside it the nearer one
is taken, and the even one of two that are equally near. Seventeen digits always suffice.
-/

namespace QLanguage

/-- A decimal `digits * 10 ^ scale`. -/
structure Decimal where
  /-- The significant digits as one number. -/
  digits : Nat
  /-- The power of ten of the last digit. -/
  scale : Int
deriving Repr, DecidableEq

namespace Decimal

-- Powers of natural numbers are those of the core library, whatever else is imported.
local instance (priority := high) natPow : Pow Nat Nat := instPowNat

/-- The exponent of the greatest power of ten that is not above `num / den`, for positive
arguments. -/
def floorLog10 (num den : Nat) : Int :=
  if den ≤ num then ((Nat.toDigits 10 (num / den)).length : Int) - 1
  else -((Nat.toDigits 10 ((den - 1) / num)).length : Int)

/-- The reals that round to a number, in units of `1 / unit`: from `low` to `high`, with the ends
included when `closed`, around the number itself, `value`. -/
structure Interval where
  /-- The lower end. -/
  low : Nat
  /-- The number. -/
  value : Nat
  /-- The upper end. -/
  high : Nat
  /-- How many units make one. -/
  unit : Nat
  /-- Whether the ends round to the number too. -/
  closed : Bool

/-- The interval of a positive number `mantissa * 2 ^ exponent`. Below a power of two the spacing
is half of that above it. -/
def Interval.around (mantissa : Nat) (exponent : Int) : Interval :=
  let below := if mantissa == 2 ^ (52 : Nat) && exponent > Binary64.leastExponent then 1 else 2
  -- A quarter of the spacing is the unit, so that both ends are whole.
  let e := exponent - 2
  let factor := 2 ^ e.toNat
  { low := (4 * mantissa - below) * factor
    value := 4 * mantissa * factor
    high := (4 * mantissa + 2) * factor
    unit := 2 ^ (-e).toNat
    closed := mantissa % 2 == 0 }

/-- Whether `digits * 10 ^ scale` lies in the interval. -/
def Interval.contains (i : Interval) (d : Decimal) : Bool :=
  let point := d.digits * 10 ^ d.scale.toNat * i.unit
  let ten := 10 ^ (-d.scale).toNat
  if i.closed then i.low * ten ≤ point && point ≤ i.high * ten
  else i.low * ten < point && point < i.high * ten

/-- The neighbour of the interval's number on the grid of `10 ^ scale` that lies in the interval,
if one does: the nearer of two, and the even one of two that are equally near. -/
def Interval.onGrid? (i : Interval) (scale : Int) : Option Decimal :=
  let step := 10 ^ scale.toNat * i.unit
  let value := i.value * 10 ^ (-scale).toNat
  let lower : Decimal := ⟨value / step, scale⟩
  let upper : Decimal := ⟨value / step + 1, scale⟩
  match i.contains lower, i.contains upper with
  | true, true =>
    let rest := 2 * (value % step)
    if rest < step || (rest == step && lower.digits % 2 == 0) then some lower else some upper
  | true, false => some lower
  | false, true => some upper
  | false, false => none

/-- A decimal without zeros at its end. -/
def trim : Nat → Decimal → Decimal
  | 0, d => d
  | fuel + 1, d =>
    if d.digits != 0 && d.digits % 10 == 0 then trim fuel ⟨d.digits / 10, d.scale + 1⟩ else d

/-- The shortest decimal that reads back as the positive number `mantissa * 2 ^ exponent`. -/
def shortest (mantissa : Nat) (exponent : Int) : Decimal :=
  let i := Interval.around mantissa exponent
  let top := floorLog10 i.value i.unit
  let grids := (List.range 17).map fun (n : Nat) => i.onGrid? (top - (n : Int))
  trim 20 ((grids.findSome? id).getD ⟨mantissa, exponent⟩)

end Decimal

end QLanguage
