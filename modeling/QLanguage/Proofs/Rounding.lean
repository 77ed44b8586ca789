import Mathlib.Algebra.Order.Field.Basic
import Mathlib.Algebra.Order.Field.Power
import Mathlib.Data.Rat.Cast.Order
import Mathlib.Tactic.FieldSimp
import Mathlib.Tactic.Linarith
import Mathlib.Tactic.Positivity
import Mathlib.Tactic.Ring
import QLanguage.Decimal.Binary64

/-!
# Binary floating point is rounded to the nearest number

`ofDecimal` gives the binary64 number nearest to a decimal, with a half going to the even neighbour,
and an infinity from half a unit above the greatest finite number on (`ofDecimal_nearest`).

The proof follows the definition. A quotient is rounded to the nearest natural number (`Rounds`),
which needs no more than its remainder. The exponent is chosen so that the rounded mantissa has 53
bits at most, and 53 exactly unless the exponent is the least one; a number of a lower exponent is
then farther away than the least mantissa of that exponent. Values that are settled by their size
alone lie beyond the range on either side.
-/

namespace QLanguage.Binary64

/-- A natural number nearest to a rational one, a half to the even neighbour. -/
def Rounds (y : ℚ) (n : ℕ) : Prop :=
  ∀ k : ℕ, |y - n| < |y - k| ∨ k = n ∨ |y - n| = |y - k| ∧ Even n

/-- The mantissa and the exponent of a finite number. -/
def Canonical (m : ℕ) (e : ℤ) : Prop :=
  2 ^ 52 ≤ m ∧ m < 2 ^ 53 ∧ leastExponent ≤ e ∧ e ≤ greatestExponent ∨
    m < 2 ^ 52 ∧ e = leastExponent

/-- The value of a mantissa and an exponent. -/
def magnitude (m : ℕ) (e : ℤ) : ℚ := m * 2 ^ e

/-- Half a unit above the greatest finite number. -/
def overflow : ℚ := (2 ^ 53 - 1 / 2) * 2 ^ greatestExponent

/-- What a number of a given sign and magnitude is rounded to: the nearest finite number, a half to
the one of even mantissa, or an infinity from `overflow` on. -/
def Nearest (negative : Bool) (x : ℚ) : Binary64 → Prop
  | .finite sign m e => sign = negative ∧ Canonical m e ∧ x < overflow ∧
      ∀ m' e', Canonical m' e' → |x - magnitude m e| < |x - magnitude m' e'| ∨
        magnitude m' e' = magnitude m e ∨
        |x - magnitude m e| = |x - magnitude m' e'| ∧ Even m
  | .infinite sign => sign = negative ∧ overflow ≤ x
  | .nan => False

/-! ## Quotients -/

/-- A rounded number is no farther away than any other. -/
theorem Rounds.abs_le {y : ℚ} {n : ℕ} (h : Rounds y n) (k : ℕ) : |y - n| ≤ |y - k| := by
  rcases h k with hlt | rfl | ⟨heq, -⟩
  · exact hlt.le
  · exact le_refl _
  · exact heq.le

/-- A natural number and a part of one round to that number or the next one. -/
theorem rounds_add {q n : ℕ} {f : ℚ} (hf : 0 ≤ f) (hf' : f < 1)
    (h : n = q ∧ (f < 1 / 2 ∨ f = 1 / 2 ∧ Even q) ∨
      n = q + 1 ∧ (1 / 2 < f ∨ f = 1 / 2 ∧ Even (q + 1))) : Rounds (q + f) n := by
  intro k
  -- Both distances are known once it is known on which side of the sum the other number lies.
  rcases h with ⟨rfl, hhalf⟩ | ⟨rfl, hhalf⟩
  · have hn : |(n : ℚ) + f - n| = f := by rw [add_sub_cancel_left, abs_of_nonneg hf]
    rcases lt_trichotomy k n with hlt | rfl | hgt
    · have hk : (k : ℚ) + 1 ≤ n := by exact_mod_cast hlt
      left
      rw [hn, abs_of_nonneg (by linarith)]
      linarith
    · exact .inr (.inl rfl)
    · have hk : (n : ℚ) + 1 ≤ k := by exact_mod_cast hgt
      rw [hn, abs_of_nonpos (by linarith)]
      rcases hhalf with hf'' | ⟨rfl, heven⟩
      · left
        linarith
      · rcases hk.lt_or_eq with hlt | heq
        · left
          linarith
        · exact .inr (.inr ⟨by linarith, heven⟩)
  · have hn : |(q : ℚ) + f - (q + 1 : ℕ)| = 1 - f := by
      push_cast
      rw [abs_of_nonpos (by linarith)]
      ring
    rcases lt_trichotomy k (q + 1) with hlt | rfl | hgt
    · have hk : (k : ℚ) ≤ q := by exact_mod_cast Nat.lt_succ_iff.mp hlt
      rw [hn, abs_of_nonneg (by linarith)]
      rcases hhalf with hf'' | ⟨rfl, heven⟩
      · left
        linarith
      · rcases hk.lt_or_eq with hlt | heq
        · left
          linarith
        · exact .inr (.inr ⟨by linarith, heven⟩)
    · exact .inr (.inl rfl)
    · have hk : (q : ℚ) + 1 + 1 ≤ k := by exact_mod_cast hgt
      left
      rw [hn, abs_of_nonpos (by linarith)]
      linarith

/-- A quotient is rounded to the nearest natural number. -/
theorem rounds_roundQuotient (num : ℕ) {den : ℕ} (hden : 0 < den) :
    Rounds (num / den) (roundQuotient num den) := by
  have hpos : (0 : ℚ) < den := by exact_mod_cast hden
  have hsplit : (num : ℚ) / den = (num / den : ℕ) + ((num % den : ℕ) : ℚ) / den := by
    have hnum : (den : ℚ) * (num / den : ℕ) + (num % den : ℕ) = num := by
      exact_mod_cast Nat.div_add_mod num den
    rw [← hnum]
    field_simp
  have hlt : ((num % den : ℕ) : ℚ) / den < 1 := by
    rw [div_lt_one hpos]
    exact_mod_cast Nat.mod_lt num hden
  rw [hsplit]
  refine rounds_add (by positivity) hlt ?_
  -- Twice the remainder tells on which side of the half the quotient lies.
  unfold roundQuotient
  rcases lt_trichotomy (2 * (num % den)) den with hless | heq | hmore
  · have hhalf : ((num % den : ℕ) : ℚ) / den < 1 / 2 := by
      rw [div_lt_div_iff₀ hpos two_pos]
      have hcast : (2 : ℚ) * (num % den : ℕ) < den := by exact_mod_cast hless
      linarith
    rw [if_neg (by simp; omega)]
    exact .inl ⟨rfl, .inl hhalf⟩
  · have hhalf : ((num % den : ℕ) : ℚ) / den = 1 / 2 := by
      rw [div_eq_div_iff hpos.ne' two_ne_zero]
      have hcast : (2 : ℚ) * (num % den : ℕ) = den := by exact_mod_cast heq
      linarith
    rcases Nat.even_or_odd (num / den) with heven | hodd
    · rw [if_neg (by simp [heq, Nat.even_iff.mp heven])]
      exact .inl ⟨rfl, .inr ⟨hhalf, heven⟩⟩
    · rw [if_pos (by simp [heq, Nat.odd_iff.mp hodd])]
      exact .inr ⟨rfl, .inr ⟨hhalf, hodd.add_one⟩⟩
  · have hhalf : 1 / 2 < ((num % den : ℕ) : ℚ) / den := by
      rw [div_lt_div_iff₀ two_pos hpos]
      have hcast : (den : ℚ) < 2 * (num % den : ℕ) := by exact_mod_cast hmore
      linarith
    rw [if_pos (by simp; omega)]
    exact .inr ⟨rfl, .inl hhalf⟩

/-! ## Powers -/

/-- A power is a quotient of powers with natural exponents. -/
theorem zpow_eq_div (b : ℕ) (e : ℤ) : (b : ℚ) ^ e = (b ^ e.toNat : ℕ) / (b ^ (-e).toNat : ℕ) := by
  rcases le_total 0 e with hnonneg | hnonpos
  · obtain ⟨n, rfl⟩ := Int.eq_ofNat_of_zero_le hnonneg
    simp
  · obtain ⟨n, hn⟩ := Int.eq_ofNat_of_zero_le (neg_nonneg.mpr hnonpos)
    obtain rfl : e = -(n : ℤ) := by omega
    simp

/-- A quotient that is scaled by a power of two, without leaving the natural numbers. -/
theorem scaled_quotient (num den : ℕ) (e : ℤ) :
    ((num * 2 ^ (-e).toNat : ℕ) : ℚ) / (den * 2 ^ e.toNat : ℕ) = num / den / 2 ^ e := by
  have hpower := zpow_eq_div 2 e
  push_cast at hpower ⊢
  rw [hpower, div_div_eq_mul_div, div_mul_eq_mul_div, div_div]

/-- Two natural numbers compare as their quotient does with a power of two. -/
theorem scaled_lt_iff (num : ℕ) {den : ℕ} (hden : 0 < den) (e : ℤ) :
    num * 2 ^ (-e).toNat < den * 2 ^ e.toNat ↔ (num : ℚ) / den < 2 ^ e := by
  have hscaled : (0 : ℚ) < (den * 2 ^ e.toNat : ℕ) := by
    exact_mod_cast Nat.mul_pos hden (Nat.two_pow_pos e.toNat)
  have hpower : (0 : ℚ) < 2 ^ e := by positivity
  rw [← div_lt_one hpower, ← scaled_quotient, div_lt_one hscaled, Nat.cast_lt]

/-- A quotient lies between the power of two of its `floorLog2` and the next one. -/
theorem floorLog2_le_lt {num den : ℕ} (hnum : 0 < num) (hden : 0 < den) :
    (2 : ℚ) ^ floorLog2 num den ≤ num / den ∧
      (num : ℚ) / den < 2 ^ (floorLog2 num den + 1) := by
  have hpos : (0 : ℚ) < den := by exact_mod_cast hden
  have hnum₁ : (2 : ℚ) ^ (num.log2 : ℤ) ≤ num := by exact_mod_cast Nat.log2_self_le hnum.ne'
  have hnum₂ : (num : ℚ) < 2 ^ ((num.log2 : ℤ) + 1) := by
    exact_mod_cast Nat.lt_log2_self (n := num)
  have hden₁ : (2 : ℚ) ^ (den.log2 : ℤ) ≤ den := by exact_mod_cast Nat.log2_self_le hden.ne'
  have hden₂ : (den : ℚ) < 2 ^ ((den.log2 : ℤ) + 1) := by
    exact_mod_cast Nat.lt_log2_self (n := den)
  -- The bit lengths alone give the exponent up to one.
  have hlow : (2 : ℚ) ^ ((num.log2 : ℤ) - den.log2 - 1) ≤ num / den := by
    rw [le_div_iff₀ hpos]
    calc (2 : ℚ) ^ ((num.log2 : ℤ) - den.log2 - 1) * den
        ≤ 2 ^ ((num.log2 : ℤ) - den.log2 - 1) * 2 ^ ((den.log2 : ℤ) + 1) := by gcongr
      _ = 2 ^ (num.log2 : ℤ) := by
        rw [← zpow_add₀ two_ne_zero]
        congr 1
        ring
      _ ≤ num := hnum₁
  have hhigh : (num : ℚ) / den < 2 ^ ((num.log2 : ℤ) - den.log2 + 1) := by
    rw [div_lt_iff₀ hpos]
    calc (num : ℚ) < 2 ^ ((num.log2 : ℤ) + 1) := hnum₂
      _ = 2 ^ ((num.log2 : ℤ) - den.log2 + 1) * 2 ^ (den.log2 : ℤ) := by
        rw [← zpow_add₀ two_ne_zero]
        congr 1
        ring
      _ ≤ 2 ^ ((num.log2 : ℤ) - den.log2 + 1) * den := by gcongr
  unfold floorLog2
  dsimp only
  split
  · next hlt =>
    rw [sub_add_cancel]
    exact ⟨hlow, (scaled_lt_iff num hden _).mp hlt⟩
  · next hge =>
    rw [scaled_lt_iff num hden, not_lt] at hge
    exact ⟨hge, hhigh⟩

/-! ## Mantissas and exponents -/

/-- A mantissa may be scaled up to a lower exponent. -/
theorem magnitude_eq_of_le {e e' : ℤ} (h : e ≤ e') (m : ℕ) :
    magnitude m e' = magnitude (m * 2 ^ (e' - e).toNat) e := by
  have hsub : ((e' - e).toNat : ℤ) = e' - e := Int.toNat_of_nonneg (sub_nonneg.mpr h)
  unfold magnitude
  push_cast
  rw [← zpow_natCast, hsub, mul_assoc, ← zpow_add₀ two_ne_zero, sub_add_cancel]

/-- Distances scale with the exponent. -/
theorem abs_sub_magnitude (y : ℚ) (m : ℕ) (e : ℤ) :
    |y * 2 ^ e - magnitude m e| = |y - m| * 2 ^ e := by
  have hpower : (0 : ℚ) < 2 ^ e := by positivity
  rw [magnitude, ← sub_mul, abs_mul, abs_of_pos hpower]

/-- No finite number is nearer than a rounded mantissa, if the exponent is the least one or the
mantissa has 53 bits. -/
theorem Rounds.nearest {y : ℚ} {m : ℕ} {e : ℤ} (h : Rounds y m)
    (hy : e = leastExponent ∨ 2 ^ 52 ≤ y) {m' : ℕ} {e' : ℤ} (hcanonical : Canonical m' e') :
    |y * 2 ^ e - magnitude m e| < |y * 2 ^ e - magnitude m' e'| ∨
      magnitude m' e' = magnitude m e ∨
      |y * 2 ^ e - magnitude m e| = |y * 2 ^ e - magnitude m' e'| ∧ Even m := by
  have hpower : (0 : ℚ) < 2 ^ e := by positivity
  rcases le_or_gt e e' with hle | hlt
  · -- The other number has a mantissa for this exponent too.
    rw [magnitude_eq_of_le hle, abs_sub_magnitude, abs_sub_magnitude]
    rcases h (m' * 2 ^ (e' - e).toNat) with hless | heq | ⟨heq, heven⟩
    · exact .inl (mul_lt_mul_of_pos_right hless hpower)
    · exact .inr (.inl (by rw [heq]))
    · exact .inr (.inr ⟨by rw [heq], heven⟩)
  · -- The other number lies below the least mantissa for this exponent.
    have hm' : m' < 2 ^ 53 ∧ leastExponent ≤ e' := by
      rcases hcanonical with ⟨-, hm', he', -⟩ | ⟨hm', rfl⟩
      · exact ⟨hm', he'⟩
      · exact ⟨by omega, le_refl _⟩
    have hy' : (2 : ℚ) ^ 52 ≤ y := by
      rcases hy with rfl | hy
      · omega
      · exact hy
    have hbelow : magnitude m' e' < 2 ^ 52 * 2 ^ e := by
      calc magnitude m' e' < 2 ^ 53 * 2 ^ e' := by
            unfold magnitude
            gcongr
            exact_mod_cast hm'.1
        _ ≤ 2 ^ 53 * 2 ^ (e - 1) := by
            gcongr
            · norm_num
            · omega
        _ = 2 ^ 52 * 2 ^ e := by
            rw [zpow_sub_one₀ two_ne_zero]
            ring
    have hnear := h.abs_le (2 ^ 52)
    rw [Nat.cast_pow, Nat.cast_ofNat, abs_of_nonneg (sub_nonneg.mpr hy')] at hnear
    left
    rw [abs_sub_magnitude]
    calc |y - m| * 2 ^ e ≤ (y - 2 ^ 52) * 2 ^ e := by gcongr
      _ = y * 2 ^ e - 2 ^ 52 * 2 ^ e := by ring
      _ < y * 2 ^ e - magnitude m' e' := by linarith
      _ ≤ |y * 2 ^ e - magnitude m' e'| := le_abs_self _

/-- A number below a power of two is not rounded to more. -/
theorem Rounds.le_of_lt {y : ℚ} {m n : ℕ} (h : Rounds y m) (hy : y < n) : m ≤ n := by
  have hnear := h.abs_le n
  rw [abs_of_nonpos (sub_nonpos.mpr hy.le)] at hnear
  have hm : (m : ℚ) ≤ n := by linarith [neg_abs_le (y - m)]
  exact_mod_cast hm

/-- A number not below a power of two is not rounded to less. -/
theorem Rounds.le_of_le {y : ℚ} {m n : ℕ} (h : Rounds y m) (hy : n ≤ y) : n ≤ m := by
  have hnear := h.abs_le n
  rw [abs_of_nonneg (sub_nonneg.mpr hy)] at hnear
  have hm : (n : ℚ) ≤ m := by linarith [le_abs_self (y - m)]
  exact_mod_cast hm

/-- Rounding reaches a number above an odd one exactly from the half between them on. -/
theorem Rounds.eq_succ_iff {y : ℚ} {m n : ℕ} (h : Rounds y m) (hodd : Odd n) (hy : y < n + 1) :
    m = n + 1 ↔ (n : ℚ) + 1 / 2 ≤ y := by
  constructor
  · rintro rfl
    have hnear := h.abs_le n
    push_cast at hnear
    rw [abs_of_nonpos (by linarith)] at hnear
    by_contra hlt
    rw [not_le] at hlt
    have habs : |y - n| < n + 1 - y := by
      rw [abs_lt]
      constructor <;> linarith
    linarith
  · intro hhalf
    have hle : m ≤ n + 1 := h.le_of_lt (by exact_mod_cast hy)
    by_contra hne
    have hmn : (m : ℚ) ≤ n := by exact_mod_cast Nat.lt_succ_iff.mp (lt_of_le_of_ne hle hne)
    -- The next number is as near at least, so it would have to be equally near and `m` even.
    have hm : |y - m| = y - m := abs_of_nonneg (by linarith)
    have hn : |y - (n + 1 : ℕ)| = n + 1 - y := by
      push_cast
      rw [abs_of_nonpos (by linarith)]
      ring
    rcases h (n + 1) with hless | heq | ⟨heq, heven⟩
    · rw [hm, hn] at hless
      linarith
    · exact hne heq.symm
    · rw [hm, hn] at heq
      have hcast : (m : ℚ) = n := by linarith
      obtain rfl : m = n := by exact_mod_cast hcast
      exact (Nat.not_even_iff_odd.mpr hodd) heven

/-- A mantissa of 53 bits at most stays below `overflow` with less than the greatest exponent. -/
theorem lt_overflow {y : ℚ} {e : ℤ} (hy : y < 2 ^ 53) (he : e < greatestExponent) :
    y * 2 ^ e < overflow := by
  unfold overflow
  generalize greatestExponent = greatest at he
  have hpower : (2 : ℚ) ^ (greatest - 1) = 2 ^ greatest * 2⁻¹ := zpow_sub_one₀ two_ne_zero greatest
  calc y * 2 ^ e < 2 ^ 53 * 2 ^ e := by gcongr
    _ ≤ 2 ^ 53 * 2 ^ (greatest - 1) := by
      gcongr
      · norm_num
      · omega
    _ = 2 ^ 52 * 2 ^ greatest := by
      rw [hpower]
      ring
    _ < (2 ^ 53 - 1 / 2) * 2 ^ greatest := by
      gcongr
      norm_num

/-- A mantissa of more than 53 bits, once rounded, reaches `overflow` with the greatest exponent. -/
theorem overflow_le {y : ℚ} {e : ℤ} (hy : 2 ^ 53 - 1 / 2 ≤ y) (he : greatestExponent ≤ e) :
    overflow ≤ y * 2 ^ e := by
  have hpos : (0 : ℚ) ≤ y := le_trans (by norm_num) hy
  unfold overflow
  gcongr
  norm_num

/-- A mantissa and an exponent of a number, if that is not too great, to which nothing is nearer. -/
theorem nearest_of_mantissa (negative : Bool) {x : ℚ} {m : ℕ} {e : ℤ} (hm : m < 2 ^ 53)
    (he : leastExponent ≤ e) (hleast : e = leastExponent ∨ 2 ^ 52 ≤ m)
    (hoverflow : overflow ≤ x ↔ greatestExponent < e)
    (hnearest : ∀ m' e', Canonical m' e' → |x - magnitude m e| < |x - magnitude m' e'| ∨
      magnitude m' e' = magnitude m e ∨ |x - magnitude m e| = |x - magnitude m' e'| ∧ Even m) :
    Nearest negative x
      (if e > greatestExponent then .infinite negative else .finite negative m e) := by
  split
  · next hgreat => exact ⟨rfl, hoverflow.mpr hgreat⟩
  · next hgreat =>
    have hbelow : x < overflow := not_le.mp fun h => hgreat (hoverflow.mp h)
    refine ⟨rfl, ?_, hbelow, hnearest⟩
    rcases lt_or_ge m (2 ^ 52) with hless | hmore
    · rcases hleast with hleast | hmore
      · exact .inr ⟨hless, hleast⟩
      · exact absurd hless (not_lt.mpr hmore)
    · exact .inl ⟨hmore, hm, he, not_lt.mp hgreat⟩

section Ratio

variable {y : ℚ} {m : ℕ} {e : ℤ} (h : Rounds y m) (hlt : y < 2 ^ 53) (he : leastExponent ≤ e)
  (hy : e = leastExponent ∨ 2 ^ 52 ≤ y)

include h hlt

/-- Rounding reaches a mantissa of 54 bits exactly from half a unit below on. -/
theorem Rounds.eq_two_pow_iff : m = 2 ^ 53 ↔ (2 : ℚ) ^ 53 - 1 / 2 ≤ y := by
  have hodd : Odd (2 ^ 53 - 1) := by decide
  have hcast : ((2 ^ 53 - 1 : ℕ) : ℚ) = 2 ^ 53 - 1 := by norm_num
  have hreaches := h.eq_succ_iff hodd (by rw [hcast]; linarith)
  rw [hcast] at hreaches
  rw [show 2 ^ 53 = 2 ^ 53 - 1 + 1 by norm_num, hreaches]
  constructor <;> intro hhalf <;> linarith

include he hy

/-- A number whose scaled value is rounded up to the next power of two is rounded to the nearest
number. -/
theorem Rounds.nearest_carry (negative : Bool) (hm : m = 2 ^ 53) :
    Nearest negative (y * 2 ^ e) (if e + 1 > greatestExponent then .infinite negative
      else .finite negative (2 ^ 52) (e + 1)) := by
  have hscaled : magnitude (2 ^ 52) (e + 1) = magnitude m e := by
    rw [hm]
    unfold magnitude
    push_cast
    rw [zpow_add_one₀ two_ne_zero]
    ring
  refine nearest_of_mantissa negative (by norm_num) (by omega) (.inr (le_refl _)) ?_ ?_
  · constructor
    · intro hover
      by_contra hless
      exact absurd hover (not_le.mpr (lt_overflow hlt (by omega)))
    · intro hgreat
      exact overflow_le ((h.eq_two_pow_iff hlt).mp hm) (by omega)
  · intro m' e' hcanonical
    rw [hscaled]
    rcases h.nearest hy hcanonical with hless | heq | ⟨heq, -⟩
    · exact .inl hless
    · exact .inr (.inl heq)
    · exact .inr (.inr ⟨heq, by decide⟩)

/-- A number whose scaled value is rounded to 53 bits at most is rounded to the nearest number. -/
theorem Rounds.nearest_of_ne (negative : Bool) (hm : m ≠ 2 ^ 53) :
    Nearest negative (y * 2 ^ e)
      (if e > greatestExponent then .infinite negative else .finite negative m e) := by
  have hle : m ≤ 2 ^ 53 := h.le_of_lt (by exact_mod_cast hlt)
  have hleast : e = leastExponent ∨ 2 ^ 52 ≤ m :=
    hy.imp_right fun hy => h.le_of_le (by exact_mod_cast hy)
  refine nearest_of_mantissa negative (lt_of_le_of_ne hle hm) he hleast ?_
    fun m' e' => h.nearest hy
  constructor
  · intro hover
    by_contra hless
    rcases (not_lt.mp hless).lt_or_eq with hlow | rfl
    · exact absurd hover (not_le.mpr (lt_overflow hlt hlow))
    · -- With the greatest exponent, the mantissa would have been rounded up.
      unfold overflow at hover
      have hhalf := le_of_mul_le_mul_right hover (by positivity)
      exact hm ((h.eq_two_pow_iff hlt).mpr hhalf)
  · intro hgreat
    have hne : e ≠ leastExponent := by
      unfold greatestExponent leastExponent at *
      omega
    have hy' : 2 ^ 52 ≤ y := hy.resolve_left hne
    have hscaled : y * 2 ^ e = 2 * y * 2 ^ (e - 1) := by
      rw [zpow_sub_one₀ two_ne_zero]
      ring
    rw [hscaled]
    exact overflow_le (by linarith) (by omega)

end Ratio

/-- A quotient is rounded to the nearest number. -/
theorem ofRatio_nearest (negative : Bool) {num den : ℕ} (hnum : 0 < num) (hden : 0 < den) :
    Nearest negative (num / den) (ofRatio negative num den) := by
  obtain ⟨hlow, hhigh⟩ := floorLog2_le_lt hnum hden
  unfold ofRatio
  dsimp only
  generalize floorLog2 num den = log at hlow hhigh
  generalize he : max (log - 52) leastExponent = e
  have hpower : (0 : ℚ) < 2 ^ e := by positivity
  have hrounds := rounds_roundQuotient (num * 2 ^ (-e).toNat)
    (Nat.mul_pos hden (Nat.two_pow_pos e.toNat))
  rw [scaled_quotient] at hrounds
  generalize roundQuotient (num * 2 ^ (-e).toNat) (den * 2 ^ e.toNat) = m at hrounds
  have hlt : (num : ℚ) / den / 2 ^ e < 2 ^ 53 := by
    rw [div_lt_iff₀ hpower]
    calc (num : ℚ) / den < 2 ^ (log + 1) := hhigh
      _ ≤ 2 ^ (53 + e) := zpow_le_zpow_right₀ (by norm_num) (by omega)
      _ = 2 ^ 53 * 2 ^ e := by
        rw [zpow_add₀ two_ne_zero]
        norm_num
  have hleast : leastExponent ≤ e := by omega
  have hy : e = leastExponent ∨ (2 : ℚ) ^ 52 ≤ num / den / 2 ^ e := by
    rcases le_or_gt leastExponent (log - 52) with hle | hgt
    · right
      rw [le_div_iff₀ hpower]
      calc (2 : ℚ) ^ 52 * 2 ^ e = 2 ^ (52 + e) := by
            rw [zpow_add₀ two_ne_zero]
            norm_num
        _ = 2 ^ log := by
            congr 1
            omega
        _ ≤ num / den := hlow
    · left
      omega
  have hx : (num : ℚ) / den = num / den / 2 ^ e * 2 ^ e := (div_mul_cancel₀ _ hpower.ne').symm
  rw [hx]
  by_cases hm : m = 2 ^ 53
  · rw [if_pos (beq_iff_eq.mpr hm)]
    exact hrounds.nearest_carry hlt hleast hy negative hm
  · rw [if_neg (fun h => hm (beq_iff_eq.mp h))]
    exact hrounds.nearest_of_ne hlt hleast hy negative hm

/-! ## Decimals -/

/-- A positive number has as many decimal digits as the powers of ten around it say. -/
theorem le_lt_length_toDigits {n : ℕ} (h : 0 < n) :
    10 ^ ((Nat.toDigits 10 n).length - 1) ≤ n ∧ n < 10 ^ (Nat.toDigits 10 n).length := by
  have hpos : 0 < (Nat.toDigits 10 n).length := Nat.length_toDigits_pos
  constructor
  · rcases Nat.eq_zero_or_pos ((Nat.toDigits 10 n).length - 1) with hzero | hmore
    · rw [hzero]
      exact h
    · by_contra hlt
      have hle := (Nat.length_toDigits_le_iff (by decide) hmore).mpr (not_le.mp hlt)
      omega
  · exact (Nat.length_toDigits_le_iff (by decide) hpos).mp (le_refl _)

/-- A positive decimal lies between the powers of ten of its size. -/
theorem decimal_le_lt {digits : ℕ} (h : 0 < digits) (scale : ℤ) :
    (10 : ℚ) ^ ((Nat.toDigits 10 digits).length + scale - 1) ≤ digits * 10 ^ scale ∧
      (digits : ℚ) * 10 ^ scale < 10 ^ ((Nat.toDigits 10 digits).length + scale) := by
  obtain ⟨hlow, hhigh⟩ := le_lt_length_toDigits h
  have hpos : 0 < (Nat.toDigits 10 digits).length := Nat.length_toDigits_pos
  generalize (Nat.toDigits 10 digits).length = length at *
  have hten : (10 : ℚ) ≠ 0 := by norm_num
  constructor
  · calc (10 : ℚ) ^ ((length : ℤ) + scale - 1) = 10 ^ (((length - 1 : ℕ) : ℤ) + scale) := by
          congr 1
          omega
      _ = ((10 ^ (length - 1) : ℕ) : ℚ) * 10 ^ scale := by
          rw [zpow_add₀ hten, zpow_natCast]
          push_cast
          rfl
      _ ≤ digits * 10 ^ scale := by gcongr
  · calc (digits : ℚ) * 10 ^ scale < ((10 ^ length : ℕ) : ℚ) * 10 ^ scale := by gcongr
      _ = 10 ^ ((length : ℤ) + scale) := by
          rw [zpow_add₀ hten, zpow_natCast]
          push_cast
          rfl

/-- Numbers below half of the least positive one are rounded to zero. -/
theorem zero_nearest (negative : Bool) {x : ℚ} (hx : 0 ≤ x) (hsmall : 2 * x < 2 ^ leastExponent) :
    Nearest negative x (zero negative) := by
  have hzero : magnitude 0 leastExponent = 0 := by simp [magnitude]
  have hbelow : x < overflow := by
    have hle : (2 : ℚ) ^ leastExponent ≤ 1 := zpow_le_one_of_nonpos₀ (by norm_num) (by decide)
    have hlt := lt_overflow (y := 1) (e := 0) (by norm_num) (by decide)
    rw [zpow_zero, mul_one] at hlt
    linarith
  refine ⟨rfl, .inr ⟨by norm_num, rfl⟩, hbelow, ?_⟩
  intro m' e' hcanonical
  rw [hzero, sub_zero, abs_of_nonneg hx]
  rcases Nat.eq_zero_or_pos m' with rfl | hpos
  · exact .inr (.inl (by simp [magnitude]))
  · -- Any other number is at least the least positive one.
    have he' : leastExponent ≤ e' := by
      rcases hcanonical with ⟨-, -, he', -⟩ | ⟨-, rfl⟩
      · exact he'
      · exact le_refl _
    have hleast : (2 : ℚ) ^ leastExponent ≤ magnitude m' e' := by
      calc (2 : ℚ) ^ leastExponent ≤ 2 ^ e' := zpow_le_zpow_right₀ (by norm_num) he'
        _ ≤ m' * 2 ^ e' := le_mul_of_one_le_left (by positivity) (by exact_mod_cast hpos)
    left
    rw [abs_of_nonpos (by linarith)]
    linarith

/-- Decimals from `10 ^ 310` on are too great. -/
theorem overflow_le_ten_pow : overflow ≤ 10 ^ (310 : ℤ) := by
  have hpow : (2 : ℕ) ^ 1024 ≤ 10 ^ 310 := by decide +kernel
  have hcast : (2 : ℚ) ^ (1024 : ℤ) ≤ 10 ^ (310 : ℤ) := by exact_mod_cast hpow
  calc overflow ≤ 2 ^ (53 : ℤ) * 2 ^ (971 : ℤ) := by
        unfold overflow greatestExponent
        gcongr
        norm_num
    _ = 2 ^ (1024 : ℤ) := by
        rw [← zpow_add₀ two_ne_zero]
        norm_num
    _ ≤ 10 ^ (310 : ℤ) := hcast

/-- Decimals below `10 ^ -330` are below half of the least positive number. -/
theorem two_mul_ten_pow_lt : 2 * (10 : ℚ) ^ (-331 : ℤ) < 2 ^ leastExponent := by
  have hpow : (2 : ℕ) * 2 ^ 1074 < 10 ^ 331 := by decide +kernel
  have hcast : (2 : ℚ) * 2 ^ (1074 : ℤ) < 10 ^ (331 : ℤ) := by exact_mod_cast hpow
  unfold leastExponent
  rw [zpow_neg, zpow_neg, ← div_eq_mul_inv, ← one_div, div_lt_div_iff₀ (by positivity)
    (by positivity), one_mul]
  exact hcast

/-- A decimal is rounded to the nearest number. -/
theorem ofDecimal_nearest (negative : Bool) (digits : ℕ) (scale : ℤ) :
    Nearest negative (digits * 10 ^ scale) (ofDecimal negative digits scale) := by
  unfold ofDecimal
  split
  · next hzero =>
    rw [beq_iff_eq.mp hzero, Nat.cast_zero, zero_mul]
    exact zero_nearest negative (le_refl 0) (by rw [mul_zero]; positivity)
  · next hne =>
    have hpos : 0 < digits := Nat.pos_of_ne_zero fun h => hne (beq_iff_eq.mpr h)
    obtain ⟨hlow, hhigh⟩ := decimal_le_lt hpos scale
    dsimp only
    split
    · next hgreat =>
      refine ⟨rfl, ?_⟩
      calc overflow ≤ 10 ^ (310 : ℤ) := overflow_le_ten_pow
        _ ≤ 10 ^ ((Nat.toDigits 10 digits).length + scale - 1) :=
          zpow_le_zpow_right₀ (by norm_num) (by omega)
        _ ≤ digits * 10 ^ scale := hlow
    · split
      · next hsmall =>
        refine zero_nearest negative (by positivity) ?_
        have hle : (10 : ℚ) ^ ((Nat.toDigits 10 digits).length + scale) ≤ 10 ^ (-331 : ℤ) :=
          zpow_le_zpow_right₀ (by norm_num) (by omega)
        linarith [two_mul_ten_pow_lt]
      · have hratio := ofRatio_nearest negative
          (Nat.mul_pos hpos (Nat.pow_pos (n := scale.toNat) (Nat.zero_lt_succ 9)))
          (Nat.pow_pos (n := (-scale).toNat) (Nat.zero_lt_succ 9))
        have hscale := zpow_eq_div 10 scale
        rw [Nat.cast_mul, mul_div_assoc, ← hscale, Nat.cast_ofNat] at hratio
        exact hratio

end QLanguage.Binary64
