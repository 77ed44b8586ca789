import QLanguage.Proofs.Cutting.Joining
import QLanguage.Proofs.Cutting.Tiling

/-!
# Blanks between lexemes

Blanks that come into a source between its lexemes change no lexeme, but for where those behind them
stand (`tokens_gap`). What a cut takes is the longest word at its place, so it depends on the front
of the source up to its own end and on nothing behind (`cut_of_prefix`), and blanks there end every
word and every number. Only a quotation mark that is never closed depends on all that follows: a
blank between a backslash and the next quotation mark lets that one close the string.
-/

namespace QLanguage

/-! ## Lexemes that are pushed -/

/-- The stretch once so many characters have come in at an offset: it is further behind, if it
starts there or later. -/
def Span.pushed (offset width : ℕ) (span : Span) : Span :=
  if (offset : ℤ) ≤ span.start then span.moved width else span

/-- The same lexeme once so many characters have come in at an offset. -/
def Token.pushed (offset width : ℕ) (token : Token) : Token :=
  ⟨token.lexeme, token.span.pushed offset width⟩

/-- A token from the offset on is moved. -/
theorem Token.pushed_of_le {offset width : ℕ} {t : Token} (h : (offset : ℤ) ≤ t.span.start) :
    t.pushed offset width = t.moved width := by
  unfold Token.pushed Span.pushed
  rw [if_pos h]
  rfl

/-- A token before the offset stays. -/
theorem Token.pushed_of_lt {offset width : ℕ} {t : Token} (h : t.span.start < (offset : ℤ)) :
    t.pushed offset width = t := by
  unfold Token.pushed Span.pushed
  rw [if_neg (not_le.mpr h)]

/-! ## Blanks -/

/-- A blank ends words and numbers. -/
theorem endsLexemes_of_isBlank {b : Char} (h : isBlank b = true) : EndsLexemes b where
  letter := by
    rw [Bool.eq_false_iff]
    intro hletter
    rw [isBlank_of_isLetter hletter] at h
    cases h
  digit := by
    rw [Bool.eq_false_iff]
    intro hdigit
    rw [isBlank_of_isDigit hdigit] at h
    cases h
  point := by
    rintro rfl
    exact absurd h (by decide)

/-- Blanks in front of a source move its lexemes. -/
theorem lexemesFrom_blanks_append {gap : List Char} (hgap : ∀ c ∈ gap, isBlank c = true)
    (offset : ℕ) (cs : List Char) :
    lexemesFrom offset (gap ++ cs) = lexemesFrom (offset + gap.length) cs := by
  induction gap generalizing offset with
  | nil => rfl
  | cons b gap ih =>
    obtain ⟨hb, hgap⟩ := List.forall_mem_cons.mp hgap
    rw [List.cons_append, lexemesFrom, if_pos hb, ih hgap, List.length_cons, Nat.add_assoc,
      Nat.add_comm 1]

/-! ## What a cut depends on -/

section

variable {c : Char} {front back : List Char}

/-- A cut depends on nothing behind its own end. -/
theorem cut_of_prefix (h : (cut c (front ++ back)).text <+: c :: front) :
    (cut c front).text = (cut c (front ++ back)).text ∧
      (cut c front).kind = (cut c (front ++ back)).kind := by
  have hmem := cut_mem_language c front
  have hmem' := cut_mem_language c (front ++ back)
  have hfront : (cut c front).text <+: c :: (front ++ back) := by
    have hpart : (cut c front).text <+: c :: front := ⟨_, cut_append c front⟩
    exact hpart.trans (List.prefix_append (c :: front) back)
  have hne := List.length_pos_iff.mpr (cut_text_ne_nil c front)
  have hne' := List.length_pos_iff.mpr (cut_text_ne_nil c (front ++ back))
  -- Each of the two is a word at the front of the other's source, so neither is longer.
  rcases hmem with hword | ⟨hinvalid, htext⟩
  · rcases cut_longest hfront hword with hshorter | hsame
    · rcases hmem' with hword' | ⟨-, htext'⟩
      · rcases cut_longest h hword' with hlonger | ⟨htext', -⟩
        · omega
        · rw [htext'] at hshorter
          omega
      · rw [htext', List.length_singleton] at hshorter
        omega
    · exact hsame
  · rcases hmem' with hword' | ⟨hinvalid', htext'⟩
    · rcases cut_longest h hword' with hlonger | ⟨-, hkind'⟩
      · rw [htext, List.length_singleton] at hlonger
        omega
      · rw [hkind', hinvalid] at hword'
        cases hword'
    · exact ⟨htext.trans htext'.symm, hinvalid.trans hinvalid'.symm⟩

/-- What a cut leaves is what stands behind it. -/
theorem cut_rest_of_split {behind : List Char} (h : (cut c front).text ++ behind = c :: front) :
    (cut c front).rest = behind :=
  List.append_cancel_left ((cut_append c front).trans h.symm)

/-- A cut that ends in the front of a source leaves the rest of the front, and the back. -/
theorem cut_rest_of_split_append {behind : List Char}
    (h : (cut c (front ++ back)).text ++ behind = c :: front) :
    (cut c (front ++ back)).rest = behind ++ back := by
  apply cut_rest_of_split
  rw [← List.append_assoc, h, List.cons_append]

/-- A cut that is not longer than the front of a source leaves some of the front behind it. -/
theorem exists_behind_cut (h : (cut c (front ++ back)).text.length ≤ (c :: front).length) :
    ∃ behind, (cut c (front ++ back)).text ++ behind = c :: front :=
  List.prefix_of_prefix_length_le ⟨_, cut_append c (front ++ back)⟩
    (List.prefix_append (c :: front) back) h

/-- A quotation mark that is never closed is a token of its own, which is invalid. -/
theorem kind_ne_invalid_of_ofCut {span : Span} {t : Token}
    (h : Lexed.ofCut (cut c front).kind (cut c front).text span = .token t)
    (hclosed : t.lexeme ≠ .invalid "\"") (hmark : c = quotationMark) :
    (cut c front).kind ≠ .invalid := by
  intro hinvalid
  have htext : (cut c front).text = [c] := by
    refine ((cut_mem_language c front).resolve_left fun hword => ?_).2
    rw [hinvalid] at hword
    exact hword
  rw [hinvalid, htext, hmark] at h
  cases h
  exact hclosed rfl

/-- Blanks behind a cut leave it as it is, unless it is a quotation mark that is never closed. -/
theorem cut_gap {gap behind : List Char} (hgap : ∀ b ∈ gap, isBlank b = true)
    (hsplit : (cut c (front ++ back)).text ++ behind = c :: front)
    (hclosed : c = quotationMark → (cut c (front ++ back)).kind ≠ .invalid) :
    cut c (front ++ gap ++ back) =
      ⟨(cut c (front ++ back)).kind, (cut c (front ++ back)).text, behind ++ gap ++ back⟩ := by
  obtain ⟨htext, hkind⟩ := cut_of_prefix ⟨behind, hsplit⟩
  cases gap with
  | nil => rw [List.append_nil, List.append_nil, ← cut_rest_of_split_append hsplit]
  | cons b gap =>
    obtain ⟨hb, -⟩ := List.forall_mem_cons.mp hgap
    have hstring : c = quotationMark → closeString? front ≠ none := by
      intro hmark hnone
      refine hclosed hmark ?_
      rw [← hkind, hmark, cut, hnone]
      rfl
    have hrest : (cut c front).rest = behind := by
      rw [← htext] at hsplit
      exact cut_rest_of_split hsplit
    have hends := endsLexemes_of_isBlank hb
    rw [List.append_assoc, List.cons_append, cut_append_ending _ hends hstring]
    dsimp only
    rw [htext, hkind, hrest, List.append_assoc, List.cons_append]

end

/-! ## Lexemes of a source with a gap -/

/-- No token of a source starts before it. -/
theorem le_start_of_mem_lexemesFrom {offset : ℕ} {cs : List Char} {t : Token}
    (h : .token t ∈ lexemesFrom offset cs) : (offset : ℤ) ≤ t.span.start := by
  fun_induction lexemesFrom offset cs with
  | case1 => cases h
  | case2 offset c cs hblank ih =>
    have hbehind := ih h
    omega
  | case3 offset c cs hblank stop ih =>
    rcases List.mem_cons.mp h with hfirst | hmore
    · rw [(ofCut_denotes hfirst.symm).1]
    · have hbehind := ih hmore
      omega

/-- Blanks in front of a source push all of its tokens. -/
theorem lexemesFrom_gap_front {gap back : List Char} (hgap : ∀ b ∈ gap, isBlank b = true)
    {offset : ℕ} {ts : List Token} (hts : lexemesFrom offset back = ts.map .token) :
    lexemesFrom offset (gap ++ back) =
      (ts.map (Token.pushed offset gap.length)).map .token := by
  have hpushed : ts.map (Token.pushed offset gap.length) = ts.map (Token.moved gap.length) := by
    apply List.map_congr_left
    intro t ht
    have hmem : .token t ∈ lexemesFrom offset back := by
      rw [hts]
      exact List.mem_map_of_mem ht
    exact Token.pushed_of_le (le_start_of_mem_lexemesFrom hmem)
  rw [lexemesFrom_blanks_append hgap, lexemesFrom_add, hts, map_moved_token, hpushed]

/-- Blanks that come in at a place that is inside of no token push the tokens behind it. -/
theorem lexemesFrom_gap {gap back : List Char} (hgap : ∀ b ∈ gap, isBlank b = true) {offset : ℕ}
    {front : List Char} {ts : List Token} (hts : lexemesFrom offset (front ++ back) = ts.map .token)
    (hinside : ∀ t ∈ ts, ¬(t.span.start < ((offset + front.length : ℕ) : ℤ) ∧
      ((offset + front.length : ℕ) : ℤ) < t.span.stop))
    (hclosed : ∀ t ∈ ts, t.lexeme ≠ .invalid "\"") :
    lexemesFrom offset (front ++ gap ++ back) =
      (ts.map (Token.pushed (offset + front.length) gap.length)).map .token := by
  -- The part before the blanks gets shorter by a blank or by a lexeme.
  induction hlength : front.length using Nat.strong_induction_on generalizing front offset ts with
  | _ length ih =>
  subst hlength
  rcases front with _ | ⟨c, front⟩
  · exact lexemesFrom_gap_front hgap hts
  by_cases hblank : isBlank c = true
  · have hplace : offset + (c :: front).length = offset + 1 + front.length := by
      rw [List.length_cons]
      omega
    rw [List.cons_append, lexemesFrom, if_pos hblank] at hts
    rw [hplace] at hinside
    rw [List.cons_append, List.cons_append, lexemesFrom, if_pos hblank, hplace]
    exact ih front.length (by rw [List.length_cons]; omega) hts hinside hclosed rfl
  · rw [List.cons_append, lexemesFrom, if_neg hblank] at hts
    obtain ⟨t, ts, rfl, ht, hts⟩ := List.map_eq_cons_iff.mp hts.symm
    obtain ⟨houtside, hinside⟩ := List.forall_mem_cons.mp hinside
    obtain ⟨hvalid, hclosed⟩ := List.forall_mem_cons.mp hclosed
    have hspan := (ofCut_denotes ht.symm).1
    have hpos := List.length_pos_iff.mpr (cut_text_ne_nil c (front ++ back))
    -- The lexeme ends before the blanks come in, and some of the front part may be behind it.
    have hends : (cut c (front ++ back)).text.length ≤ (c :: front).length := by
      rw [hspan] at houtside
      dsimp only at houtside
      rw [List.length_cons] at houtside ⊢
      omega
    obtain ⟨behind, hsplit⟩ := exists_behind_cut hends
    have hlength : (cut c (front ++ back)).text.length + behind.length = (c :: front).length := by
      rw [← hsplit, List.length_append]
    have hplace : offset + (c :: front).length =
        offset + (cut c (front ++ back)).text.length + behind.length := by omega
    rw [cut_rest_of_split_append hsplit] at hts
    rw [hplace] at hinside
    rw [List.cons_append, List.cons_append, lexemesFrom, if_neg hblank,
      cut_gap hgap hsplit (kind_ne_invalid_of_ofCut ht.symm hvalid)]
    dsimp only
    rw [← ht, ih behind.length (by omega) hts.symm hinside hclosed rfl, hplace, List.map_cons,
      List.map_cons, Token.pushed_of_lt]
    rw [hspan]
    dsimp only
    omega

/-- Blanks that come into a source between its tokens leave the tokens, and push those behind
them. -/
theorem tokens_gap {front back gap : String} (hgap : ∀ c ∈ gap.toList, isBlank c = true)
    {ts : List Token} (htokens : tokens (front ++ back) = .ok ts)
    (hinside : ∀ t ∈ ts, ¬(t.span.start < front.length ∧ (front.length : ℤ) < t.span.stop))
    (hclosed : ∀ t ∈ ts, t.lexeme ≠ .invalid "\"") :
    tokens (front ++ gap ++ back) = .ok (ts.map (Token.pushed front.length gap.length)) := by
  rw [tokens_eq_ok_iff, lexemes, String.toList_append] at htokens
  rw [tokens_eq_ok_iff, lexemes, String.toList_append, String.toList_append,
    lexemesFrom_gap hgap htokens _ hclosed, Nat.zero_add, String.length_toList,
    String.length_toList]
  rw [Nat.zero_add, String.length_toList]
  exact hinside

-- The quotation mark has to be closed: a blank behind a backslash frees the mark that follows it.
example : tokens ("\"\\" ++ "\"") =
      .ok [⟨.invalid "\"", ⟨0, 1⟩⟩, ⟨.invalid "\\", ⟨1, 2⟩⟩, ⟨.invalid "\"", ⟨2, 3⟩⟩] ∧
    tokens ("\"\\" ++ " " ++ "\"") = .ok [⟨.string "\\ ", ⟨0, 4⟩⟩] :=
  ⟨by decide +kernel, by decide +kernel⟩

end QLanguage
