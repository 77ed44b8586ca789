import Mathlib.Data.Nat.Digits.Defs
import QLanguage.Proofs.Cutting.Languages
import QLanguage.Proofs.Rounding

/-!
# What a lexeme denotes

The text of a lexeme denotes a value: an identifier itself, a string what stands between its
quotation marks, an integer the number of its decimal digits, and a float the binary64 number that
is nearest to its decimal. Reading the value of a cut gives what its text denotes
(`ofCut_denotes`).
-/

namespace QLanguage

/-- The number that decimal digits denote. -/
def decimal (digits : List Char) : ℕ :=
  Nat.ofDigits 10 (digits.reverse.map fun c => c.toNat - '0'.toNat)

/-- A text denotes the value of a lexeme. -/
inductive Denotes : List Char → Lexeme → Prop where
  /-- An identifier denotes itself. -/
  | identifier (name : String) : Denotes name.toList (.identifier name)
  /-- A string denotes what stands between its quotation marks. -/
  | string (raw : String) :
      Denotes (quotationMark :: (raw.toList ++ [quotationMark])) (.string raw)
  /-- An integer denotes the number of its digits. -/
  | integer (digits : List Char) : Denotes digits (.integer (decimal digits))
  /-- A float denotes the number nearest to its decimal. -/
  | float {whole fraction : List Char} {value : Binary64}
      (nearest : Binary64.Nearest false
        (decimal whole + decimal fraction / 10 ^ fraction.length) value) :
      Denotes (whole ++ '.' :: fraction) (.float value)
  /-- A punctuation mark denotes itself. -/
  | punct (p : Punct) : Denotes [p.char] (.punct p)
  /-- An invalid character denotes itself. -/
  | invalid (c : Char) : Denotes [c] (.invalid (String.ofList [c]))

/-! ## Decimal digits -/

/-- A last digit counts once and those before it ten times. -/
theorem decimal_concat (digits : List Char) (c : Char) :
    decimal (digits ++ [c]) = 10 * decimal digits + (c.toNat - '0'.toNat) := by
  unfold decimal
  rw [List.reverse_append, List.reverse_singleton, List.singleton_append, List.map_cons,
    Nat.ofDigits_cons]
  omega

/-- Digits behind others shift these. -/
theorem decimal_append (digits digits' : List Char) :
    decimal (digits ++ digits') = decimal digits * 10 ^ digits'.length + decimal digits' := by
  unfold decimal
  rw [List.reverse_append, List.map_append, Nat.ofDigits_append, List.length_map,
    List.length_reverse]
  ring

/-- Reading digits from left to right gives the number that they denote. -/
theorem digitsValue_eq_decimal (digits : List Char) : digitsValue digits = decimal digits := by
  induction digits using List.reverseRecOn with
  | nil => rfl
  | append_singleton digits c ih =>
    rw [decimal_concat, ← ih]
    unfold digitsValue
    rw [List.foldl_append]
    rfl

/-- Digits around a point are read as the number nearest to their decimal. -/
theorem floatValue_nearest {whole fraction : List Char} (h : ∀ c ∈ whole, c.isDigit = true) :
    Binary64.Nearest false (decimal whole + decimal fraction / 10 ^ fraction.length)
      (floatValue (whole ++ '.' :: fraction)) := by
  have htake : (whole ++ '.' :: fraction).takeWhile Char.isDigit = whole := by
    rw [List.takeWhile_append_of_pos h]
    exact List.append_nil whole
  have hdrop : (whole ++ '.' :: fraction).dropWhile Char.isDigit = '.' :: fraction := by
    rw [List.dropWhile_append_of_pos h]
    rfl
  have hnearest := Binary64.ofDecimal_nearest false (decimal (whole ++ fraction))
    (-(fraction.length : ℤ))
  have hvalue : (decimal (whole ++ fraction) : ℚ) * 10 ^ (-(fraction.length : ℤ)) =
      decimal whole + decimal fraction / 10 ^ fraction.length := by
    rw [decimal_append, zpow_neg, zpow_natCast]
    push_cast
    field_simp
  rw [hvalue, ← digitsValue_eq_decimal (whole ++ fraction)] at hnearest
  unfold floatValue
  rw [htake, hdrop]
  exact hnearest

/-! ## The value of a cut -/

/-- A token that is read from a cut has its kind and its span, and its text denotes the token's
value. -/
theorem ofCut_denotes {c : Char} {cs : List Char} {span : Span} {t : Token}
    (h : Lexed.ofCut (cut c cs).kind (cut c cs).text span = .token t) :
    t.span = span ∧ t.kind = (cut c cs).kind ∧ Denotes (cut c cs).text t.lexeme := by
  have hcut := cut_mem_language c cs
  generalize (cut c cs).kind = kind at h hcut
  generalize (cut c cs).text = text at h hcut
  cases kind with
  | identifier =>
    cases h
    refine ⟨rfl, rfl, ?_⟩
    have hdenotes := Denotes.identifier (String.ofList text)
    rwa [String.toList_ofList] at hdenotes
  | string =>
    cases h
    obtain ⟨raw, rfl, -⟩ := mem_string.mp (hcut.resolve_right (by simp))
    refine ⟨rfl, rfl, ?_⟩
    have hdenotes := Denotes.string (String.ofList raw)
    rw [String.toList_ofList] at hdenotes
    rw [List.drop_one, List.tail_cons, List.dropLast_concat]
    exact hdenotes
  | integer =>
    unfold Lexed.ofCut at h
    dsimp only at h
    split at h
    · cases h
    · cases h
      refine ⟨rfl, rfl, ?_⟩
      rw [digitsValue_eq_decimal]
      exact .integer text
  | float =>
    cases h
    obtain ⟨whole, fraction, rfl, hwhole, -⟩ := mem_float.mp (hcut.resolve_right (by simp))
    exact ⟨rfl, rfl, .float (floatValue_nearest hwhole)⟩
  | punct p =>
    cases h
    rw [mem_punct.mp (hcut.resolve_right (by simp))]
    exact ⟨rfl, rfl, .punct p⟩
  | invalid =>
    cases h
    rw [(hcut.resolve_left fun hmem => hmem).2]
    exact ⟨rfl, rfl, .invalid c⟩
  | other label => exact absurd hcut (by simp [Kind.language])

end QLanguage
