/-!
# Binary floating point

A float literal denotes the binary64 number nearest to its decimal value, with a half going to the
even neighbour. The number is kept as an exact mantissa and exponent, so that reading and printing
are arithmetic on natural numbers.
-/

namespace QLanguage

/-- A binary64 number. A finite one is `mantissa * 2 ^ exponent` up to its sign; it is normal when
`2 ^ 52 ≤ mantissa < 2 ^ 53`, and otherwise its exponent is the least one, `-1074`. -/
inductive Binary64 where
  /-- A finite number. -/
  | finite (negative : Bool) (mantissa : Nat) (exponent : Int)
  /-- An infinity. -/
  | infinite (negative : Bool)
  /-- No number. -/
  | nan
deriving Repr, DecidableEq

namespace Binary64

-- Powers of natural numbers are those of the core library, whatever else is imported.
local instance (priority := high) natPow : Pow Nat Nat := instPowNat

/-- The exponent of the least positive number. -/
def leastExponent : Int := -1074

/-- The greatest exponent of a finite number. -/
def greatestExponent : Int := 971

/-- Zero with a sign. -/
def zero (negative : Bool) : Binary64 := .finite negative 0 leastExponent

/-- The quotient rounded to the nearest natural number, a half to the even neighbour. -/
def roundQuotient (num den : Nat) : Nat :=
  let q := num / den
  let r := num % den
  if 2 * r > den || (2 * r == den && q % 2 == 1) then q + 1 else q

/-- The exponent of the greatest power of two that is not above `num / den`, for positive
arguments. -/
def floorLog2 (num den : Nat) : Int :=
  let e : Int := (num.log2 : Int) - (den.log2 : Int)
  if num * 2 ^ (-e).toNat < den * 2 ^ e.toNat then e - 1 else e

/-- The number nearest to `num / den`, for positive arguments. -/
def ofRatio (negative : Bool) (num den : Nat) : Binary64 :=
  let e := max (floorLog2 num den - 52) leastExponent
  let m := roundQuotient (num * 2 ^ (-e).toNat) (den * 2 ^ e.toNat)
  -- Rounding up may reach the next power of two, whose mantissa is one bit too long.
  let (m, e) := if m == 2 ^ (53 : Nat) then ((2 : Nat) ^ (52 : Nat), e + 1) else (m, e)
  if e > greatestExponent then .infinite negative else .finite negative m e

/-- The number nearest to `digits * 10 ^ scale`. Values beyond `10 ^ 310` and below `10 ^ -330` are
settled by their size alone. -/
def ofDecimal (negative : Bool) (digits : Nat) (scale : Int) : Binary64 :=
  if digits == 0 then zero negative
  else
    let size : Int := ((Nat.toDigits 10 digits).length : Int) + scale
    if size > 310 then .infinite negative
    else if size < -330 then zero negative
    else ofRatio negative (digits * 10 ^ scale.toNat) (10 ^ (-scale).toNat)

/-- Whether two numbers are numerically equal: the two zeros are, and what is no number equals
nothing. -/
def equal : Binary64 → Binary64 → Bool
  | .finite s m e, .finite s' m' e' => (m == 0 && m' == 0) || (s == s' && m == m' && e == e')
  | .infinite s, .infinite s' => s == s'
  | _, _ => false

end Binary64

end QLanguage
