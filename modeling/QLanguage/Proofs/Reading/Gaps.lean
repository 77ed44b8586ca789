import QLanguage.Proofs.Cutting.Gaps
import QLanguage.Proofs.Reading.Named

/-!
# Reading past blanks

Blanks that come into a source between its tokens change nothing of what is read
(`blanks_between_tokens`). The tokens are the same, those behind the blanks at other places, so the
source is read side by side with the wider one: the declarations are the same, and each diagnostic
comes to the same finding at the place that its token now has. Only a declaration without a value is
known by its place, and that place is pushed like a token that starts there.
-/

namespace QLanguage

/-! ## Diagnostics that are pushed -/

/-- The same finding once so many characters have come in at an offset, in the source that they
make. -/
def Diagnostic.pushed (offset width : ℕ) (source : String) : Diagnostic → Diagnostic
  | .unexpected expected found => .unexpected expected (found.pushed offset width)
  | .expectedExpression found => .expectedExpression (found.pushed offset width)
  | .expectedPattern found => .expectedPattern (found.pushed offset width)
  | .missingValue name span kept sourceName =>
    .missingValue name (span.pushed offset width) (kept.map fun _ => source) sourceName
  | .endOfInput place => .endOfInput (place.map (· + (width : ℤ)))

/-- The diagnostic is one that is known by its place: a declaration without a value. -/
def Diagnostic.KnownByPlace : Diagnostic → Prop
  | .missingValue _ _ _ _ => True
  | _ => False

/-- A diagnostic that is not known by its place is the same finding when it is pushed. -/
theorem Diagnostic.agrees_pushed {d : Diagnostic} (hplace : ¬d.KnownByPlace)
    (hfound : ∀ t ∈ d.found?, t.lexeme.agrees t.lexeme = true) (offset width : ℕ)
    (source : String) : (d.pushed offset width source).agrees d = true := by
  cases d with
  | unexpected expected found =>
    exact Bool.and_eq_true_iff.mpr ⟨beq_self_eq_true expected, hfound found rfl⟩
  | expectedExpression found => exact hfound found rfl
  | expectedPattern found => exact hfound found rfl
  | missingValue name span kept sourceName => exact absurd trivial hplace
  | endOfInput place => rfl

/-! ## The wider source -/

section

variable {source wider : String} {offset width : ℕ}

/-- The end of a source is pushed by what comes in before it. -/
theorem Span.pushed_end (hoffset : offset ≤ source.length)
    (hlength : wider.length = source.length + width) :
    Span.pushed offset width ⟨source.length, source.length⟩ = ⟨wider.length, wider.length⟩ := by
  unfold Span.pushed
  rw [if_pos (Int.ofNat_le.mpr hoffset), Span.moved, hlength, Nat.cast_add]

/-- A source is read side by side with a wider one that has the same tokens, some of them pushed. -/
theorem companions_pushed (sourceName : String) (hoffset : offset ≤ source.length)
    (hlength : wider.length = source.length + width) :
    Companions sourceName source wider (fun _ => True)
      (fun t t' => t.lexeme.agrees t.lexeme = true ∧ t' = t.pushed offset width)
      (fun d d' => (∀ t ∈ d.found?, t.lexeme.agrees t.lexeme = true) ∧
        d' = d.pushed offset width wider) where
  lexeme := by
    rintro t _ ⟨-, rfl⟩
    rfl
  name _ _ := trivial
  text _ _ := trivial
  unexpected := by
    rintro kind t _ - ⟨ht, rfl⟩
    exact ⟨by simpa [Diagnostic.found?] using ht, rfl⟩
  expectedExpression := by
    rintro t _ ⟨ht, rfl⟩
    exact ⟨by simpa [Diagnostic.found?] using ht, rfl⟩
  expectedPattern := by
    rintro t _ ⟨ht, rfl⟩
    exact ⟨by simpa [Diagnostic.found?] using ht, rfl⟩
  missingValue := by
    rintro name t _ - ⟨-, rfl⟩
    exact ⟨by simp [Diagnostic.found?], rfl⟩
  missingAtEnd _ := by
    refine ⟨by simp [Diagnostic.found?], ?_⟩
    rw [Diagnostic.pushed, Span.pushed_end hoffset hlength, Option.map_some]
  endOfInput := by
    refine ⟨by simp [Diagnostic.found?], ?_⟩
    rw [Diagnostic.pushed, Option.map_some, hlength, Nat.cast_add]

/-- Where a wider source has the same tokens, some of them pushed, the same declarations are read
from it, and the same diagnostics, pushed. -/
theorem parseModule_pushed (hoffset : offset ≤ source.length)
    (hlength : wider.length = source.length + width) {ts : List Token}
    (htokens : tokens source = .ok ts)
    (hwider : tokens wider = .ok (ts.map (Token.pushed offset width)))
    (depth : ℕ) (name : String) :
    parseModule depth name wider =
        (parseModule depth name source).map (fun parsed =>
          ⟨parsed.module, parsed.diagnostics.map (Diagnostic.pushed offset width wider)⟩) ∧
      ∀ parsed, parseModule depth name source = .ok parsed →
        ∀ d ∈ parsed.diagnostics, ∀ t ∈ d.found?, t.lexeme.agrees t.lexeme = true := by
  rw [tokens_eq_ok_iff] at htokens hwider
  have hagrees : ∀ t ∈ ts, t.lexeme.agrees t.lexeme = true := fun t ht =>
    ((tiles_lexemesFrom List.drop_zero htokens).longest t ht).denotes.agrees_self
  have hcursors : Cursor.Paired source wider
      (fun t t' => t.lexeme.agrees t.lexeme = true ∧ t' = t.pushed offset width)
      (.ofSource source) (.ofSource wider) := by
    refine ⟨?_, rfl, rfl⟩
    dsimp only [Cursor.ofSource]
    rw [htokens, hwider, List.forall₂_map_left_iff, List.forall₂_map_right_iff,
      List.forall₂_map_right_iff, List.forall₂_same]
    exact fun t ht => .token ⟨hagrees t ht, rfl⟩
  have hend := (companions_pushed name hoffset hlength).parseModule depth hcursors
  generalize parseModule depth name source = read at hend ⊢
  generalize parseModule depth name wider = read' at hend ⊢
  cases hend with
  | error hstop =>
    obtain ⟨rfl, -⟩ := hstop
    exact ⟨rfl, fun _ hread => by cases hread⟩
  | ok hparsed =>
    obtain ⟨hfound, hpushed⟩ := (List.forall₂_and_left _ _).mp hparsed.diagnostics
    constructor
    · refine congrArg Except.ok ?_
      dsimp only
      rw [← hparsed.module, ← eq_map_of_forall₂ hpushed]
    · rintro _ ⟨⟩
      exact hfound

end

/-! ## Blanks -/

/-- Blanks between tokens change nothing. Let a source have no integer that is too long and no
quotation mark that is never closed, and let blanks come into it at a place that is not strictly
inside of a token. Then its tokens have the same lexemes in the same order. The same declarations
are read from it and the same diagnostics, in their order, at the places that their tokens now have;
and each diagnostic is the same finding, but for the declarations without a value, which are known
by their place. -/
theorem blanks_between_tokens {front back gap : String} {ts : List Token}
    (hgap : ∀ c ∈ gap.toList, isBlank c = true) (htokens : tokens (front ++ back) = .ok ts)
    (hinside : ∀ t ∈ ts, ¬(t.span.start < front.length ∧ (front.length : ℤ) < t.span.stop))
    (hclosed : ∀ t ∈ ts, t.lexeme ≠ .invalid "\"") :
    (∃ ts', tokens (front ++ gap ++ back) = .ok ts' ∧
      ts'.map Token.lexeme = ts.map Token.lexeme) ∧
    ∀ (depth : ℕ) (name : String),
      parseModule depth name (front ++ gap ++ back) =
        (parseModule depth name (front ++ back)).map (fun parsed =>
          ⟨parsed.module, parsed.diagnostics.map
            (Diagnostic.pushed front.length gap.length (front ++ gap ++ back))⟩) ∧
      ∀ parsed, parseModule depth name (front ++ back) = .ok parsed →
        ∀ d ∈ parsed.diagnostics, ¬d.KnownByPlace →
          (d.pushed front.length gap.length (front ++ gap ++ back)).agrees d = true := by
  have hwider := tokens_gap hgap htokens hinside hclosed
  have hoffset : front.length ≤ (front ++ back).length := by
    rw [String.length_append]
    omega
  have hlength : (front ++ gap ++ back).length = (front ++ back).length + gap.length := by
    rw [String.length_append, String.length_append, String.length_append]
    omega
  refine ⟨⟨_, hwider, ?_⟩, fun depth name => ?_⟩
  · rw [List.map_map]
    rfl
  · obtain ⟨hparse, hfound⟩ := parseModule_pushed hoffset hlength htokens hwider depth name
    exact ⟨hparse, fun parsed hparsed d hd hplace =>
      Diagnostic.agrees_pushed hplace (hfound parsed hparsed d hd) _ _ _⟩

/-- A name directly behind a string in a call is unexpected, and so it is with blanks before it. The
declaration behind the call lacks its value at the end of the source, which is further behind
then. -/
theorem blanks_between_tokens_call :
    parseModule 9 "m" ("x = y(\"a\"" ++ " \n" ++ "b) z =") =
      .ok ⟨⟨"m", []⟩,
        [.unexpected (.punct .closeParen) ⟨.identifier "b", ⟨11, 12⟩⟩,
          .missingValue "z" ⟨17, 17⟩ (some "x = y(\"a\" \nb) z =") (some "m")]⟩ ∧
    Diagnostic.agrees (.unexpected (.punct .closeParen) ⟨.identifier "b", ⟨11, 12⟩⟩)
      (.unexpected (.punct .closeParen) ⟨.identifier "b", ⟨9, 10⟩⟩) = true := by
  have hgap : ∀ c ∈ " \n".toList, isBlank c = true := List.all_eq_true.mp (by decide)
  obtain ⟨ts, htokens, hinside, hclosed⟩ : ∃ ts, tokens ("x = y(\"a\"" ++ "b) z =") = .ok ts ∧
      (∀ t ∈ ts, ¬(t.span.start < "x = y(\"a\"".length ∧
        ("x = y(\"a\"".length : ℤ) < t.span.stop)) ∧
      ∀ t ∈ ts, t.lexeme ≠ .invalid "\"" :=
    ⟨[⟨.identifier "x", ⟨0, 1⟩⟩, ⟨.punct .equal, ⟨2, 3⟩⟩, ⟨.identifier "y", ⟨4, 5⟩⟩,
      ⟨.punct .openParen, ⟨5, 6⟩⟩, ⟨.string "a", ⟨6, 9⟩⟩, ⟨.identifier "b", ⟨9, 10⟩⟩,
      ⟨.punct .closeParen, ⟨10, 11⟩⟩, ⟨.identifier "z", ⟨12, 13⟩⟩, ⟨.punct .equal, ⟨14, 15⟩⟩],
      by decide +kernel, by decide, by decide⟩
  have hread : parseModule 9 "m" ("x = y(\"a\"" ++ "b) z =") =
      .ok ⟨⟨"m", []⟩,
        [.unexpected (.punct .closeParen) ⟨.identifier "b", ⟨9, 10⟩⟩,
          .missingValue "z" ⟨15, 15⟩ (some "x = y(\"a\"b) z =") (some "m")]⟩ := by decide +kernel
  obtain ⟨hwider, hagrees⟩ := (blanks_between_tokens hgap htokens hinside hclosed).2 9 "m"
  rw [hread] at hwider
  exact ⟨hwider, hagrees _ hread _ List.mem_cons_self id⟩

end QLanguage
