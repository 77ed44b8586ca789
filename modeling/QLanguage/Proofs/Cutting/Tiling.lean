import Mathlib.Data.Set.List
import QLanguage.Proofs.Cutting.Values
import QLanguage.Proofs.Reading.Cursor

/-!
# Tokens tile their source

The tokens of a source stand in it one behind the other, with nothing but blanks between them, and
each is the longest lexeme at its place (`Token.Longest`). Cutting goes through the source from the
left, so what holds of the tokens from some offset on (`Tiles`) is carried back over a blank and
over one more token.
-/

namespace QLanguage

/-- The characters of a source in a span. -/
def Span.slice (span : Span) (source : String) : List Char :=
  (source.toList.drop span.start.toNat).take (span.stop - span.start).toNat

/-- A token is the longest lexeme at the place in the source that it names. -/
structure Token.Longest (source : String) (t : Token) : Prop where
  /-- Its span is not empty and lies in the source. -/
  within : 0 ≤ t.span.start ∧ t.span.start < t.span.stop ∧ t.span.stop ≤ source.length
  /-- The characters in its span denote its value. -/
  denotes : Denotes (t.span.slice source) t.lexeme
  /-- Unless it is invalid, they are a word of the language of its kind. -/
  mem : t.kind ≠ .invalid → t.span.slice source ∈ t.kind.language
  /-- A word of any language that the source goes on with from there is shorter, or it is this one
  and of this kind. -/
  longest : ∀ (kind : Kind) (word : List Char), word <+: source.toList.drop t.span.start.toNat →
    word ∈ kind.language → word.length < (t.span.slice source).length ∨
      word = t.span.slice source ∧ kind = t.kind
  /-- If it is invalid, it is one character, and the source goes on with no word from there. -/
  invalid : t.kind = .invalid → t.span.stop = t.span.start + 1 ∧
    ∀ (kind : Kind) (word : List Char), word ≠ [] →
      word <+: source.toList.drop t.span.start.toNat → word ∉ kind.language

/-- Tokens that tile a source from an offset on. -/
structure Tiles (source : String) (offset : ℕ) (ts : List Token) : Prop where
  /-- Each is the longest lexeme at its place. -/
  longest : ∀ t ∈ ts, t.Longest source
  /-- None stands before the offset. -/
  behind : ∀ t ∈ ts, (offset : ℤ) ≤ t.span.start
  /-- Each ends before the later ones start. -/
  ordered : ts.Pairwise fun t t' => t.span.stop ≤ t'.span.start
  /-- Outside of them there are only blanks. -/
  blank : ∀ (i : ℕ) c, offset ≤ i → source.toList[i]? = some c →
    (∀ t ∈ ts, ¬(t.span.start ≤ i ∧ (i : ℤ) < t.span.stop)) → isBlank c = true

section Tiles

variable {source : String} {offset : ℕ} {ts : List Token} {c : Char} {cs : List Char}

/-- At the end of the source there are no tokens. -/
theorem tiles_nil (h : source.toList.drop offset = []) : Tiles source offset [] where
  longest := by simp
  behind := by simp
  ordered := .nil
  blank := by
    intro i c hi hc
    have hlength := List.drop_eq_nil_iff.mp h
    rw [List.getElem?_eq_none (le_trans hlength hi)] at hc
    cases hc

/-- A blank in front leaves the tokens as they are. -/
theorem Tiles.skip (h : Tiles source (offset + 1) ts) (hdrop : source.toList.drop offset = c :: cs)
    (hblank : isBlank c = true) : Tiles source offset ts where
  longest := h.longest
  behind := by
    intro t ht
    have hbehind := h.behind t ht
    omega
  ordered := h.ordered
  blank := by
    intro i d hi hd houtside
    rcases Nat.eq_or_lt_of_le hi with rfl | hlt
    · -- The first character is the blank.
      have hfirst : (source.toList.drop offset)[0]? = some d := by
        rwa [List.getElem?_drop, Nat.add_zero]
      rw [hdrop] at hfirst
      cases hfirst
      exact hblank
    · exact h.blank i d hlt hd houtside

/-- A token in front of the others. -/
theorem Tiles.cons {t : Token} {stop : ℕ} (h : Tiles source stop ts) (ht : t.Longest source)
    (hspan : t.span = ⟨offset, stop⟩) : Tiles source offset (t :: ts) where
  longest := List.forall_mem_cons.mpr ⟨ht, h.longest⟩
  behind := by
    have hwithin := ht.within
    rw [hspan] at hwithin
    dsimp only at hwithin
    rw [List.forall_mem_cons, hspan]
    refine ⟨le_refl _, fun t' ht' => ?_⟩
    have hbehind := h.behind t' ht'
    omega
  ordered := by
    rw [List.pairwise_cons, hspan]
    exact ⟨h.behind, h.ordered⟩
  blank := by
    intro i d hi hd houtside
    rw [List.forall_mem_cons, hspan] at houtside
    dsimp only at houtside
    exact h.blank i d (by omega) hd houtside.2

/-- The source has the characters of a cut in its span. -/
theorem slice_of_cut (hdrop : source.toList.drop offset = c :: cs) :
    Span.slice ⟨(offset : ℤ), ((offset + (cut c cs).text.length : ℕ) : ℤ)⟩ source =
      (cut c cs).text := by
  have hlength : (((offset + (cut c cs).text.length : ℕ) : ℤ) - offset).toNat =
      (cut c cs).text.length := by omega
  unfold Span.slice
  dsimp only
  rw [Int.toNat_natCast, hdrop, hlength, ← cut_append c cs]
  exact List.take_left

/-- Behind a cut the source goes on with its rest. -/
theorem drop_of_cut (hdrop : source.toList.drop offset = c :: cs) :
    source.toList.drop (offset + (cut c cs).text.length) = (cut c cs).rest := by
  rw [← List.drop_drop, hdrop, ← cut_append c cs]
  exact List.drop_left

/-- A cut gives the longest lexeme at its place. -/
theorem longest_of_cut {t : Token} (hdrop : source.toList.drop offset = c :: cs)
    (h : Lexed.ofCut (cut c cs).kind (cut c cs).text
      ⟨(offset : ℤ), ((offset + (cut c cs).text.length : ℕ) : ℤ)⟩ = .token t) :
    t.Longest source := by
  obtain ⟨hspan, hkind, hdenotes⟩ := ofCut_denotes h
  have hrest : source.toList.drop t.span.start.toNat = c :: cs := by
    rw [hspan]
    exact hdrop
  have hsplit : (cut c cs).text ++ (cut c cs).rest = source.toList.drop offset := by
    rw [hdrop, cut_append]
  have hslice : t.span.slice source = (cut c cs).text := by
    rw [hspan]
    exact slice_of_cut hdrop
  have hlongest : ∀ (kind : Kind) (word : List Char), word <+: c :: cs → word ∈ kind.language →
      word.length < (cut c cs).text.length ∨ word = (cut c cs).text ∧ kind = (cut c cs).kind :=
    fun kind word => cut_longest
  refine ⟨?_, ?_, ?_, ?_, ?_⟩
  · have hpos : 0 < (cut c cs).text.length := List.length_pos_iff.mpr (cut_text_ne_nil c cs)
    have hlength := congrArg List.length hsplit
    rw [List.length_append, List.length_drop, String.length_toList] at hlength
    rw [hspan]
    dsimp only
    omega
  · rwa [hslice]
  · intro hvalid
    rw [hkind] at hvalid ⊢
    rw [hslice]
    exact (cut_mem_language c cs).resolve_right fun hinvalid => hvalid hinvalid.1
  · rwa [hrest, hslice, hkind]
  · intro hinvalid
    rw [hkind] at hinvalid
    have htext : (cut c cs).text = [c] := by
      refine ((cut_mem_language c cs).resolve_left fun hmem => ?_).2
      rw [hinvalid] at hmem
      exact hmem
    refine ⟨?_, ?_⟩
    · rw [hspan, htext]
      rfl
    · -- A word would be shorter than one character, or invalid.
      intro kind word hne hprefix hmem
      rw [hrest] at hprefix
      rcases hlongest kind word hprefix hmem with hshort | ⟨-, hsame⟩
      · rw [htext, List.length_singleton, Nat.lt_one_iff] at hshort
        exact hne (List.eq_nil_of_length_eq_zero hshort)
      · rw [hsame, hinvalid] at hmem
        exact hmem

/-- Cutting a source from an offset on tiles it from there. -/
theorem tiles_lexemesFrom (hdrop : source.toList.drop offset = cs)
    (hts : lexemesFrom offset cs = ts.map .token) : Tiles source offset ts := by
  fun_induction lexemesFrom offset cs generalizing ts with
  | case1 offset =>
    obtain rfl := List.map_eq_nil_iff.mp hts.symm
    exact tiles_nil hdrop
  | case2 offset c cs hblank ih =>
    refine (ih ?_ hts).skip hdrop hblank
    rw [← List.drop_drop, hdrop, List.drop_one, List.tail_cons]
  | @case3 offset c cs hblank stop ih =>
    obtain ⟨t, ts', rfl, ht, hts'⟩ := List.map_eq_cons_iff.mp hts.symm
    exact (ih (drop_of_cut hdrop) hts'.symm).cons (longest_of_cut hdrop ht.symm)
      (ofCut_denotes ht.symm).1

end Tiles

/-- A source without an integer that is too long has tokens, and they tile it: each is not empty,
lies in the source and ends before the later ones start, and outside of them there are only blanks.
Each is the longest word of any of the languages that the source goes on with from there, of the
kind of that language, and its value is what it denotes; an invalid token is one character where
the source goes on with no word. -/
theorem tokens_are_longest_matches {source : String}
    (h : ∀ digits span, Lexed.overlong digits span ∉ lexemes source) :
    ∃ ts, tokens source = .ok ts ∧ (∀ t ∈ ts, t.Longest source) ∧
      (ts.Pairwise fun t t' => t.span.stop ≤ t'.span.start) ∧
      ∀ (i : ℕ) c, source.toList[i]? = some c →
        (∀ t ∈ ts, ¬(t.span.start ≤ i ∧ (i : ℤ) < t.span.stop)) → isBlank c = true := by
  have hall : ∀ l ∈ lexemes source, l ∈ Set.range Lexed.token := by
    intro l hl
    cases l with
    | token t => exact ⟨t, rfl⟩
    | overlong digits span => exact absurd hl (h digits span)
  have hrange : lexemes source ∈ Set.range (List.map Lexed.token) := by
    rw [Set.range_list_map]
    exact hall
  obtain ⟨ts, hts⟩ := hrange
  have htiles : Tiles source 0 ts := tiles_lexemesFrom List.drop_zero hts.symm
  exact ⟨ts, tokens_eq_ok_iff.mpr hts.symm, htiles.longest, htiles.ordered,
    fun i c => htiles.blank i c (Nat.zero_le i)⟩

/-- A word ends at a digit, a second point starts another float, an escaped quotation mark does not
close a string, and one that is never closed is invalid. -/
theorem tokens_are_longest_matches_points :
    ∃ ts, tokens "x1.5.25 \"\\\"\" \"2" = .ok ts ∧
      ts.map Token.lexeme = [.identifier "x", .float (.finite false (3 * 2 ^ 51) (-52)),
        .float (.finite false (2 ^ 52) (-54)), .string "\\\"", .invalid "\"", .integer 2] ∧
      (∀ t ∈ ts, t.Longest "x1.5.25 \"\\\"\" \"2") ∧
      ts.Pairwise fun t t' => t.span.stop ≤ t'.span.start := by
  have htokens : tokens "x1.5.25 \"\\\"\" \"2" = .ok
      [⟨.identifier "x", ⟨0, 1⟩⟩, ⟨.float (.finite false (3 * 2 ^ 51) (-52)), ⟨1, 4⟩⟩,
        ⟨.float (.finite false (2 ^ 52) (-54)), ⟨4, 7⟩⟩, ⟨.string "\\\"", ⟨8, 12⟩⟩,
        ⟨.invalid "\"", ⟨13, 14⟩⟩, ⟨.integer 2, ⟨14, 15⟩⟩] := by decide +kernel
  have hshort : ∀ digits span, Lexed.overlong digits span ∉ lexemes "x1.5.25 \"\\\"\" \"2" := by
    rw [tokens_eq_ok_iff.mp htokens]
    simp
  obtain ⟨ts, hts, hlongest, hordered, -⟩ := tokens_are_longest_matches hshort
  obtain rfl := Except.ok.inj (htokens.symm.trans hts)
  exact ⟨_, htokens, rfl, hlongest, hordered⟩

end QLanguage
