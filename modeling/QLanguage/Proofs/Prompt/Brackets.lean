import QLanguage.Prompt.Shell
import QLanguage.Proofs.Cutting.Scanning
import QLanguage.Proofs.Cutting.Values
import QLanguage.Proofs.Prompt.Stripping
import QLanguage.Proofs.Reading.Module

/-!
# Brackets of a complete line

The prompt counts the brackets of a line as characters, the grammar as lexemes. A source has the
character of a mark as often as the mark is one of its lexemes, and besides only inside its strings
(`count_char_lexemesFrom`). The lexemes of an expression and of a module have every bracket as often
closed as opened, so what is counted of a complete line is just what its strings have. A line whose
strings have more opening than closing brackets is therefore held back although it is complete.
-/

namespace QLanguage

open Grammar

/-! ## Characters of marks -/

/-- A mark is no letter, no digit, no point, no quotation mark and no blank. -/
theorem Punct.char_class (p : Punct) : isLetter p.char = false ∧ p.char.isDigit = false ∧
    p.char ≠ '.' ∧ p.char ≠ quotationMark ∧ isBlank p.char = false := by
  cases p <;> decide

/-- Marks with one character are one mark. -/
theorem Punct.char_injective : Function.Injective Punct.char := by
  intro p q h
  have hp := (Punct.ofChar?_eq_some_iff p.char p).mpr rfl
  rw [h, (Punct.ofChar?_eq_some_iff q.char q).mpr rfl] at hp
  exact (Option.some.inj hp).symm

/-! ## Characters of lexemes -/

/-- The characters between the quotation marks of a string, and none for another lexeme. -/
def Lexeme.inside : Lexeme → List Char
  | .string raw => raw.toList
  | _ => []

/-- A cut has the character of a mark if it is that mark, and inside a string. -/
theorem count_char_of_cut (p : Punct) {c : Char} {cs : List Char} {span : Span} {t : Token}
    (h : Lexed.ofCut (cut c cs).kind (cut c cs).text span = .token t) :
    (cut c cs).text.count p.char =
      [t.lexeme].count (.punct p) + t.lexeme.inside.count p.char := by
  obtain ⟨hletter, hdigit, hpoint, hquote, -⟩ := p.char_class
  obtain ⟨-, hkind, hdenotes⟩ := ofCut_denotes h
  have hcut := cut_mem_language c cs
  have hvalid : (cut c cs).kind = .invalid → c ≠ p.char := by
    rintro hinvalid rfl
    rw [cut_punct] at hinvalid
    cases hinvalid
  rw [Token.kind] at hkind
  rw [← hkind] at hcut hvalid
  generalize (cut c cs).text = text at hcut hdenotes ⊢
  generalize t.lexeme = l at hcut hdenotes hvalid ⊢
  cases hdenotes with
  | identifier name =>
    have hletters := (mem_identifier.mp (hcut.resolve_right (by simp [Lexeme.kind]))).2
    simp [count_eq_zero_of_class hletter hletters, Lexeme.inside]
  | string raw => simp [List.count_cons_of_ne hquote.symm, Lexeme.inside]
  | integer digits =>
    have hdigits := (mem_integer.mp (hcut.resolve_right (by simp [Lexeme.kind]))).2
    simp [count_eq_zero_of_class hdigit hdigits, Lexeme.inside]
  | float nearest =>
    obtain ⟨whole, fraction, htext, hwhole, -, hfraction⟩ :=
      mem_float.mp (hcut.resolve_right (by simp [Lexeme.kind]))
    rw [htext, List.count_append, List.count_cons_of_ne hpoint.symm]
    simp [count_eq_zero_of_class hdigit hwhole, count_eq_zero_of_class hdigit hfraction,
      Lexeme.inside]
  | punct q =>
    have hiff : q.char = p.char ↔ q = p := Punct.char_injective.eq_iff
    simp [List.count_singleton, Lexeme.inside, hiff]
  | invalid d =>
    obtain rfl : d = c := by simpa [Lexeme.kind, Kind.language] using hcut
    simp [Lexeme.inside, hvalid rfl]

/-- A source has the character of a mark as often as its lexemes have the mark, and inside its
strings. -/
theorem count_char_lexemesFrom (p : Punct) {offset : Nat} {cs : List Char} {ts : List Token}
    (h : lexemesFrom offset cs = ts.map .token) :
    cs.count p.char = (ts.map Token.lexeme).count (.punct p) +
      (ts.flatMap fun t => t.lexeme.inside).count p.char := by
  fun_induction lexemesFrom offset cs generalizing ts with
  | case1 offset =>
    obtain rfl := List.map_eq_nil_iff.mp h.symm
    rfl
  | case2 offset c cs hblank ih =>
    obtain ⟨-, -, -, -, hmark⟩ := p.char_class
    rw [← ih h, List.count_cons_of_ne]
    rintro rfl
    rw [hblank] at hmark
    cases hmark
  | @case3 offset c cs hblank stop ih =>
    obtain ⟨t, ts', rfl, ht, hts'⟩ := List.map_eq_cons_iff.mp h.symm
    rw [← cut_append c cs, List.count_append, count_char_of_cut p ht.symm, ih hts'.symm,
      List.map_cons, List.flatMap_cons, List.count_append, List.count_cons (l := ts'.map _),
      List.count_singleton]
    omega

/-! ## Balanced brackets -/

/-- As many parentheses and as many braces close as open. -/
def BracketsBalanced (ls : List Lexeme) : Prop :=
  ls.count (.punct .openParen) = ls.count (.punct .closeParen) ∧
    ls.count (.punct .openBrace) = ls.count (.punct .closeBrace)

/-- Every rule of the grammar keeps its lexemes balanced. -/
theorem hereditary_bracketsBalanced : Hereditary BracketsBalanced where
  nil := by simp [BracketsBalanced]
  append h h' := by
    simp only [BracketsBalanced, List.count_append] at h h' ⊢
    omega
  identifier name := by simp [BracketsBalanced]
  string text := by simp [BracketsBalanced]
  separator mark hmark := by
    simp only [List.mem_cons, List.not_mem_nil, or_false] at hmark
    rcases hmark with rfl | rfl | rfl <;> simp [BracketsBalanced]
  parentheses h := by simpa [BracketsBalanced] using h
  braces h := by simpa [BracketsBalanced] using h

/-! ## Complete lines -/

/-- A line that is read as an expression, or as declarations without a diagnostic and one at
least. -/
def IsComplete (depth : Nat) (line : String) : Prop :=
  (∃ e, parseExpression depth line = .ok e) ∨
    ∃ parsed, parseModule depth promptName line = .ok parsed ∧ parsed.diagnostics = [] ∧
      parsed.module.items ≠ []

/-- The text of all strings among some tokens. -/
def stringText (ts : List Token) : String := String.ofList (ts.flatMap fun t => t.lexeme.inside)

/-- A complete line has tokens, and these are balanced. -/
theorem IsComplete.exists_tokens {depth : Nat} {line : String} (h : IsComplete depth line) :
    ∃ ts, tokens line = .ok ts ∧ ts ≠ [] ∧ BracketsBalanced (ts.map Token.lexeme) := by
  rcases h with ⟨e, hparse⟩ | ⟨parsed, hparse, hnone, hne⟩
  · obtain ⟨⟨ts, htokens, hexpression⟩, -⟩ := parseExpression_eq_ok_iff.mp hparse
    refine ⟨ts, htokens, ?_, hereditary_bracketsBalanced.expression hexpression⟩
    rintro rfl
    obtain ⟨l, ls, hls, -⟩ := hexpression.exists_first
    cases hls
  · obtain ⟨ds, rfl, ⟨ts, htokens, hmodule⟩, -⟩ := parseModule_sound hparse hnone
    refine ⟨ts, htokens, ?_, hereditary_bracketsBalanced.module hmodule⟩
    rintro rfl
    exact hne (List.eq_nil_of_length_eq_zero (Nat.le_zero.mp hmodule.length_le))

/-- A balanced source is unclosed where the text of its strings is. -/
theorem isUnclosed_eq {source : String} {ts : List Token} (htokens : tokens source = .ok ts)
    (hbalanced : BracketsBalanced (ts.map Token.lexeme)) :
    isUnclosed source = isUnclosed (stringText ts) := by
  obtain ⟨hparens, hbraces⟩ := hbalanced
  have hcount := fun p => count_char_lexemesFrom p (tokens_eq_ok_iff.mp htokens)
  unfold isUnclosed
  dsimp only
  simp only [hcount, stringText, String.toList_ofList, hparens, hbraces, gt_iff_lt,
    Nat.add_lt_add_iff_left]

/-- Stripping a text changes nothing of whether it is unclosed. -/
theorem isUnclosed_stripBlanks (text : String) :
    isUnclosed (stripBlanks text) = isUnclosed text := by
  have hcount : ∀ p : Punct,
      (stripBlanks text).toList.count p.char = text.toList.count p.char := by
    intro p
    obtain ⟨-, -, -, -, hblank⟩ := p.char_class
    exact count_stripBlanks hblank text
  simp only [isUnclosed, hcount]

/-- A text that is stripped to nothing has no lexemes. -/
theorem lexemes_eq_nil_of_stripBlanks {text : String} (h : stripBlanks text = "") :
    lexemes text = [] := by
  have hempty := congrArg String.toList h
  rw [stripBlanks, String.toList_ofList, String.toList_empty, List.reverse_eq_nil_iff,
    List.dropWhile_eq_nil_iff] at hempty
  have hblank : (text.toList.dropWhile isBlank).dropWhile isBlank = [] :=
    List.dropWhile_eq_nil_iff.mpr fun c hc => hempty c (List.mem_reverse.mpr hc)
  rw [List.dropWhile_idempotent] at hblank
  rw [lexemes, ← lexemesFrom_dropWhile, hblank, lexemesFrom]

/-- A complete line is held back exactly when the text of its strings has more opening than closing
parentheses or braces. Every other complete line is executed at once. -/
theorem held_back_iff {depth : Nat} {line : String} (h : IsComplete depth line) :
    ∃ ts, tokens line = .ok ts ∧ isUnclosed (stripBlanks line) = isUnclosed (stringText ts) ∧
      ∀ shell : Shell, shell.pending = "" →
        shell.enter line =
          if isUnclosed (stringText ts) then
            (.ok (), { shell with pending := stripBlanks line, prompt := Shell.secondaryPrompt })
          else
            let (result, workspace) :=
              (Work.guarded (Shell.execute (stripBlanks line))).run shell.workspace
            (result.map fun _ => (), ⟨workspace, "", Shell.primaryPrompt⟩) := by
  obtain ⟨ts, htokens, hne, hbalanced⟩ := h.exists_tokens
  have hunclosed : isUnclosed (stripBlanks line) = isUnclosed (stringText ts) := by
    rw [isUnclosed_stripBlanks, isUnclosed_eq htokens hbalanced]
  have hnonempty : ¬(stripBlanks line).isEmpty = true := by
    intro hempty
    have hnil := lexemes_eq_nil_of_stripBlanks (String.isEmpty_iff.mp hempty)
    rw [tokens_eq_ok_iff.mp htokens, List.map_eq_nil_iff] at hnil
    exact hne hnil
  refine ⟨ts, htokens, hunclosed, fun shell hpending => ?_⟩
  have hline : stripBlanks (shell.pending ++ " " ++ line) = stripBlanks line := by
    rw [hpending, String.empty_append, stripBlanks_space_append]
  unfold Shell.enter
  dsimp only
  rw [hline, hunclosed, if_neg hnonempty]

/-- A line whose strings open and close one parenthesis is executed at once. -/
theorem held_back_iff_closed_strings :
    ∃ ts, tokens "f = (x) \x7b g(\"(\", x, \")\") \x7d" = .ok ts ∧
      isUnclosed (stringText ts) = false ∧
      (Shell.fresh (.fresh false false) []).enter "f = (x) \x7b g(\"(\", x, \")\") \x7d" =
        let (result, workspace) := (Work.guarded (Shell.execute
          (stripBlanks "f = (x) \x7b g(\"(\", x, \")\") \x7d"))).run
            (.openPrompt (.fresh false false) [])
        (result.map fun _ => (), ⟨workspace, "", Shell.primaryPrompt⟩) := by
  have hparse : parseModule 3 promptName "f = (x) \x7b g(\"(\", x, \")\") \x7d" = .ok ⟨⟨promptName,
      [⟨"f", .function (.mk [.bind "x"] (.call "g" [.string "(", .variable "x", .string ")"]))
        []⟩]⟩, []⟩ := by decide +kernel
  have hcomplete : IsComplete 3 "f = (x) \x7b g(\"(\", x, \")\") \x7d" :=
    .inr ⟨_, hparse, rfl, List.cons_ne_nil _ _⟩
  obtain ⟨ts, htokens, hunclosed, henter⟩ := held_back_iff hcomplete
  have hclosed : isUnclosed (stringText ts) = false := by
    rw [← hunclosed]
    decide
  refine ⟨ts, htokens, hclosed, ?_⟩
  rw [henter (Shell.fresh (.fresh false false) []) rfl, hclosed]
  rfl

/-- A line that is one string is complete, and it is held back for the parenthesis in it. -/
theorem complete_line_held_back :
    parseExpression 1 "\"(\"" = .ok (.string "(") ∧ isUnclosed (stripBlanks "\"(\"") = true := by
  refine ⟨?_, ?_⟩
  · decide +kernel
  · decide

end QLanguage
