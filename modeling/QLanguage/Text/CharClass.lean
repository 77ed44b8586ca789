/-!
# Classes of characters

A class of characters is a list of ranges of code points, both ends included. The modules beside
this one give the ranges of one class each.
-/

namespace QLanguage

/-- A class of characters as ranges of code points, both ends included. -/
abbrev CharClass := List (Nat × Nat)

/-- Whether a range spans the code point of a character. -/
def CharClass.spans (c : Char) (range : Nat × Nat) : Bool :=
  decide (range.1 ≤ c.toNat) && decide (c.toNat ≤ range.2)

/-- Whether a character lies in one of the ranges. -/
def CharClass.contains (ranges : CharClass) (c : Char) : Bool := ranges.any (CharClass.spans c)

/-- A character belongs to a class exactly when one of the ranges spans its code point. -/
theorem CharClass.contains_iff (ranges : CharClass) (c : Char) :
    ranges.contains c = true ↔ ∃ r ∈ ranges, r.1 ≤ c.toNat ∧ c.toNat ≤ r.2 := by
  simp [CharClass.contains, CharClass.spans]

end QLanguage
