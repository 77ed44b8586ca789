import QLanguage.Proofs.Cutting.Tiling
import QLanguage.Proofs.Prompt.Brackets
import QLanguage.Proofs.Prompt.Survival
import QLanguage.Proofs.Reading.Composition
import QLanguage.Proofs.Session.Classification

/-!
# Source text is no command

A command has only letters, digits and low lines, blanks, and the characters of an identifier. A
quotation mark and every punctuation mark are none of these (`isCommandCharacter`), so a line that
has one of them is source text. An expression has one unless it is a variable alone, and
declarations have an equals sign; so of all lines that can be read only the words of the commands
are commands. And while text is held back there are no commands at all.
-/

namespace QLanguage

open Grammar

/-! ## Characters of commands -/

/-- Whether a character may stand in a command: in its word, in the identifier behind the word, or
between them. -/
def isCommandCharacter (c : Char) : Bool := isWordCharacter c || isBlank c || isIdentifierPart c

/-- Neither the quotation mark nor a punctuation mark stands in a command. -/
theorem isCommandCharacter_mark :
    isCommandCharacter quotationMark = false ∧ ∀ p : Punct, isCommandCharacter p.char = false :=
  ⟨by decide +kernel, fun p => by cases p <;> decide +kernel⟩

/-- The characters of an identifier may stand in one. -/
theorem isIdentifierPart_of_mem {text : String} (h : isIdentifier text = true) {c : Char}
    (hc : c ∈ text.toList) : isIdentifierPart c = true := by
  unfold isIdentifier at h
  split at h
  · cases h
  · next d rest hchars =>
    rw [Bool.and_eq_true, List.all_eq_true] at h
    rw [hchars] at hc
    rcases List.mem_cons.mp hc with rfl | hrest
    · unfold isIdentifierPart
      rw [Bool.or_eq_true]
      exact .inl h.1
    · exact h.2 c hrest

/-- A line with a character that stands in no command is source text. -/
theorem classifyWords_of_mem {line : String} {c : Char} (hc : c ∈ line.toList)
    (hcommand : isCommandCharacter c = false) (holding : Bool) :
    classifyWords line holding = .source line := by
  simp only [isCommandCharacter, Bool.or_eq_false_iff] at hcommand
  obtain ⟨⟨hword, hblank⟩, hpart⟩ := hcommand
  -- The character stands behind the first word, and stays when the rest is stripped.
  let topic := stripBlanks (String.ofList (line.toList.dropWhile isWordCharacter))
  have htopic : c ∈ topic.toList := by
    rw [← List.count_pos_iff, count_stripBlanks hblank, String.toList_ofList,
      count_dropWhile_of_class hword, List.count_pos_iff]
    exact hc
  have hempty : topic.isEmpty = false := by
    rw [Bool.eq_false_iff, Ne, String.isEmpty_iff]
    intro hnone
    rw [hnone] at htopic
    cases htopic
  have hidentifier : isIdentifier topic = false := by
    rw [Bool.eq_false_iff]
    intro hidentifier
    rw [isIdentifierPart_of_mem hidentifier htopic] at hpart
    cases hpart
  have hneither : (holding || !(topic.isEmpty || isIdentifier topic)) = true := by
    rw [hempty, hidentifier]
    exact Bool.or_true holding
  unfold classifyWords
  dsimp only
  split
  · exact if_pos hneither
  · rfl

/-! ## Lines -/

/-- Words are a command or source text, and source text while text is held back. -/
theorem classifyWords_cases (line : String) (holding : Bool) :
    classifyWords line holding = .source line ∨
      holding = false ∧
        ∃ command topic, classifyWords line holding = .command command topic line := by
  unfold classifyWords
  dsimp only
  split
  · split
    · exact .inl rfl
    · next command _ hcommand =>
      refine .inr ⟨?_, command, _, rfl⟩
      cases holding with
      | false => rfl
      | true => exact absurd rfl hcommand
  · exact .inl rfl

section

variable {line : String} (hne : stripBlanks line ≠ "")
  (hquestion : (stripBlanks line).toList.head? ≠ some '?')

include hne hquestion

/-- A line that has not only blanks, and no question mark in front, is taken for its words. -/
theorem classifyLine_eq_classifyWords (holding : Bool) :
    classifyLine line holding = classifyWords (stripBlanks line) holding := by
  unfold classifyLine
  dsimp only
  split
  · next hchars => exact absurd (String.toList_eq_nil_iff.mp hchars) hne
  · next rest hchars => exact absurd (congrArg List.head? hchars) hquestion
  · next rest hchars =>
    -- No word stands before an exclamation mark, and no command has an empty word.
    have hword : (stripBlanks line).toList.takeWhile isWordCharacter = [] := by
      rw [hchars, List.takeWhile_cons_of_neg (by decide)]
    unfold classifyWords
    rw [hword]
    rfl
  · rfl

/-- Such a line is source text if a character in it stands in no command. -/
theorem classifyLine_of_mem {c : Char} (hc : c ∈ line.toList)
    (hcommand : isCommandCharacter c = false) (holding : Bool) :
    classifyLine line holding = .source (stripBlanks line) := by
  rw [classifyLine_eq_classifyWords hne hquestion]
  refine classifyWords_of_mem ?_ hcommand holding
  simp only [isCommandCharacter, Bool.or_eq_false_iff] at hcommand
  rw [← List.count_pos_iff, count_stripBlanks hcommand.1.2, List.count_pos_iff]
  exact hc

end

/-- While text is held back, every line is source text that has not only blanks. -/
theorem exists_classifyLine_holding {line : String} (hne : stripBlanks line ≠ "") :
    ∃ text, classifyLine line true = .source text := by
  have hwords : ∀ words, classifyWords words true = .source words := by
    intro words
    exact (classifyWords_cases words true).resolve_right fun h => Bool.noConfusion h.1
  unfold classifyLine
  dsimp only
  split
  · next hchars => exact absurd (String.toList_eq_nil_iff.mp hchars) hne
  · exact ⟨_, hwords _⟩
  · exact ⟨_, rfl⟩
  · exact ⟨_, hwords _⟩

/-! ## Lines that can be read -/

/-- A line with a question mark in front starts with an invalid token. -/
theorem lexemes_of_question {line : String} (h : (stripBlanks line).toList.head? = some '?') :
    ∃ t ls, lexemes line = .token t :: ls ∧ t.lexeme = .invalid "?" := by
  obtain ⟨more, hmore⟩ := List.head?_eq_some_iff.mp h
  have hfront : (stripBlanks line).toList <+: line.toList.dropWhile isBlank := by
    rw [toList_stripBlanks]
    exact List.rdropWhile_prefix _ _
  obtain ⟨rest, hrest⟩ := hfront
  rw [hmore, List.cons_append] at hrest
  have hcut : cut '?' (more ++ rest) = ⟨.invalid, ['?'], more ++ rest⟩ := rfl
  rw [lexemes, ← lexemesFrom_dropWhile, ← hrest, lexemesFrom, if_neg (by decide), hcut]
  exact ⟨_, _, rfl, rfl⟩

/-- A text without lexemes is blank. -/
theorem forall_isBlank_of_lexemesFrom {offset : ℕ} {cs : List Char}
    (h : lexemesFrom offset cs = []) : ∀ c ∈ cs, isBlank c = true := by
  induction cs generalizing offset with
  | nil => exact fun _ hc => absurd hc List.not_mem_nil
  | cons c cs ih =>
    by_cases hblank : isBlank c = true
    · rw [lexemesFrom, if_pos hblank] at h
      exact List.forall_mem_cons.mpr ⟨hblank, ih h⟩
    · rw [lexemesFrom, if_neg hblank] at h
      cases h

/-- A line whose only lexeme is a name is that name, but for blanks around it. -/
theorem stripBlanks_of_identifier {line name : String} {t : Token}
    (h : lexemes line = [.token t]) (ht : t.lexeme = .identifier name) :
    stripBlanks line = name := by
  have hsplit : line.toList.takeWhile isBlank ++ line.toList.dropWhile isBlank = line.toList :=
    List.takeWhile_append_dropWhile
  rw [lexemes, ← lexemesFrom_dropWhile] at h
  rcases hrest : line.toList.dropWhile isBlank with _ | ⟨c, cs⟩ <;> rw [hrest] at h hsplit
  · rw [lexemesFrom] at h
    cases h
  · have hblank : ¬isBlank c = true := by
      have hfirst := List.head?_dropWhile_not isBlank line.toList
      rw [hrest] at hfirst
      simpa using hfirst
    rw [lexemesFrom, if_neg hblank, List.cons.injEq] at h
    obtain ⟨hfirst, hnone⟩ := h
    obtain ⟨-, hkind, hdenotes⟩ := ofCut_denotes hfirst
    rw [Token.kind, ht] at hkind
    rw [ht] at hdenotes
    have htext : (cut c cs).text = name.toList := by
      generalize (cut c cs).text = text at hdenotes
      cases hdenotes
      rfl
    have hletters : ∀ d ∈ name.toList, isLetter d = true := by
      have hmem := cut_mem_language c cs
      rw [← hkind, htext] at hmem
      exact (mem_identifier.mp (hmem.resolve_right (by simp [Lexeme.kind]))).2
    have hstripped : Stripped name := by
      constructor
      · intro d hd
        exact isBlank_of_isLetter (hletters d (List.mem_of_mem_head? hd))
      · intro d hd
        exact isBlank_of_isLetter (hletters d (List.mem_of_mem_getLast? hd))
    refine stripBlanks_of_blanks (line.toList.takeWhile isBlank) (cut c cs).rest hstripped
      (fun _ => List.mem_takeWhile_imp) (forall_isBlank_of_lexemesFrom hnone) ?_
    rw [← htext, List.append_assoc, cut_append, hsplit]

/-- An expression is a string, a name, or has a parenthesis. -/
theorem Grammar.IsExpression.cases_openParen {ls : List Lexeme} {e : Expr}
    (h : IsExpression ls e) :
    (∃ text, ls = [.string text]) ∨ (∃ name, ls = [.identifier name]) ∨
      .punct .openParen ∈ ls := by
  cases h with
  | string text => exact .inl ⟨text, rfl⟩
  | «variable» name => exact .inr (.inl ⟨name, rfl⟩)
  | call name arguments =>
    obtain ⟨inside, rfl, -⟩ := isParenthesised_iff.mp arguments
    exact .inr (.inr (List.mem_cons_of_mem _ List.mem_cons_self))
  | function clauses =>
    obtain ⟨inside, rfl⟩ := (IsExpression.function clauses).exists_openParen
    exact .inr (.inr List.mem_cons_self)

/-- The source has the character of a mark that is one of its lexemes. -/
theorem mem_of_mem_lexemes {p : Punct} {source : String} {ts : List Token}
    (htokens : tokens source = .ok ts) (h : .punct p ∈ ts.map Token.lexeme) :
    p.char ∈ source.toList := by
  have hcount := count_char_lexemesFrom p (tokens_eq_ok_iff.mp htokens)
  have hpos := List.count_pos_iff.mpr h
  rw [← List.count_pos_iff]
  omega

/-- The source has a quotation mark if a string is one of its lexemes. -/
theorem quotationMark_mem_of_mem_tokens {source raw : String} {ts : List Token}
    (htokens : tokens source = .ok ts) {t : Token} (ht : t ∈ ts) (hraw : t.lexeme = .string raw) :
    quotationMark ∈ source.toList := by
  have hdenotes :=
    ((tiles_lexemesFrom List.drop_zero (tokens_eq_ok_iff.mp htokens)).longest t ht).denotes
  rw [hraw] at hdenotes
  have hslice : quotationMark ∈ t.span.slice source := by
    generalize t.span.slice source = text at hdenotes ⊢
    cases hdenotes
    exact List.mem_cons_self
  exact List.mem_of_mem_drop (List.mem_of_mem_take hslice)

/-- A line that can be read is one name, or has a character that stands in no command. -/
theorem IsComplete.cases_command {depth : ℕ} {line : String} (h : IsComplete depth line) :
    (∃ name t, lexemes line = [.token t] ∧ t.lexeme = .identifier name) ∨
      ∃ c ∈ line.toList, isCommandCharacter c = false := by
  rcases h with ⟨e, hparse⟩ | ⟨parsed, hparse, hnone, hne⟩
  · obtain ⟨⟨ts, htokens, hexpression⟩, -⟩ := parseExpression_eq_ok_iff.mp hparse
    rcases hexpression.cases_openParen with ⟨raw, hls⟩ | ⟨name, hls⟩ | hopen
    · obtain ⟨t, rfl, ht⟩ := List.map_eq_singleton_iff.mp hls
      exact .inr ⟨_, quotationMark_mem_of_mem_tokens htokens List.mem_cons_self ht,
        isCommandCharacter_mark.1⟩
    · obtain ⟨t, rfl, ht⟩ := List.map_eq_singleton_iff.mp hls
      exact .inl ⟨name, t, tokens_eq_ok_iff.mp htokens, ht⟩
    · exact .inr ⟨_, mem_of_mem_lexemes htokens hopen, isCommandCharacter_mark.2 _⟩
  · obtain ⟨ds, rfl, ⟨ts, htokens, hmodule⟩, -⟩ := parseModule_sound hparse hnone
    obtain ⟨name, ls, hls⟩ := hmodule.exists_mark hne
    have hequal : .punct .equal ∈ ts.map Token.lexeme := by
      rw [hls]
      exact List.mem_cons_of_mem _ List.mem_cons_self
    exact .inr ⟨_, mem_of_mem_lexemes htokens hequal, isCommandCharacter_mark.2 _⟩

/-- A line that can be read has no question mark in front. -/
theorem IsComplete.head?_ne_question {depth : ℕ} {line : String} (h : IsComplete depth line) :
    (stripBlanks line).toList.head? ≠ some '?' := by
  intro hquestion
  have hvalid : ∃ ts, tokens line = .ok ts ∧ ∀ l ∈ ts.map Token.lexeme, l.Valid := by
    rcases h with ⟨e, hparse⟩ | ⟨parsed, hparse, hnone, -⟩
    · obtain ⟨⟨ts, htokens, hexpression⟩, -⟩ := parseExpression_eq_ok_iff.mp hparse
      exact ⟨ts, htokens, hereditary_valid.expression hexpression⟩
    · obtain ⟨ds, -, ⟨ts, htokens, hmodule⟩, -⟩ := parseModule_sound hparse hnone
      exact ⟨ts, htokens, hereditary_valid.module hmodule⟩
  obtain ⟨ts, htokens, hvalid⟩ := hvalid
  obtain ⟨t, ls, hlexemes, hinvalid⟩ := lexemes_of_question hquestion
  rw [tokens_eq_ok_iff.mp htokens] at hlexemes
  obtain ⟨t', ts', rfl, ht, -⟩ := List.map_eq_cons_iff.mp hlexemes
  cases ht
  exact hvalid t.lexeme (List.mem_map_of_mem List.mem_cons_self) "?" hinvalid

/-- A line that can be read has not only blanks. -/
theorem IsComplete.stripBlanks_ne {depth : ℕ} {line : String} (h : IsComplete depth line) :
    stripBlanks line ≠ "" := by
  intro hempty
  obtain ⟨ts, htokens, hne, -⟩ := h.exists_tokens
  have hnil := lexemes_eq_nil_of_stripBlanks hempty
  rw [tokens_eq_ok_iff.mp htokens, List.map_eq_nil_iff] at hnil
  exact hne hnil

/-- Only the words of the commands are read as commands. -/
theorem Command.ofWord?_eq_some {word : String} {command : Command}
    (h : Command.ofWord? word = some command) : word = command.word := by
  unfold Command.ofWord? at h
  split at h <;> cases h <;> rfl

/-- A line that can be read is source text, unless it is the word of a command. -/
theorem IsComplete.classifyLine_eq {depth : ℕ} {line : String} (h : IsComplete depth line)
    (hword : ∀ command : Command, stripBlanks line ≠ command.word) :
    classifyLine line false = .source (stripBlanks line) := by
  rcases h.cases_command with ⟨name, t, hlexemes, ht⟩ | ⟨c, hc, hcommand⟩
  · -- The line is a name, so that all of it is its first word.
    have hname : stripBlanks line = name := stripBlanks_of_identifier hlexemes ht
    have hmem : .token t ∈ lexemes line := by
      rw [hlexemes]
      exact List.mem_cons_self
    have hsource : t.lexeme.inSource = true := inSource_of_mem_lexemesFrom hmem
    rw [ht, Lexeme.inSource, isName, Bool.and_eq_true, List.all_eq_true] at hsource
    have hletters : ∀ c ∈ (stripBlanks line).toList, isWordCharacter c = true := by
      intro c hc
      rw [hname] at hc
      have hletter := hsource.2 c hc
      simp only [isLetter, Bool.or_eq_true] at hletter
      simp only [isWordCharacter, Char.isAlphanum, Bool.or_eq_true]
      tauto
    rw [classifyLine_eq_classifyWords h.stripBlanks_ne h.head?_ne_question]
    unfold classifyWords
    dsimp only
    rw [List.takeWhile_eq_self_iff.mpr hletters, String.ofList_toList]
    split
    · next command hcommand => exact absurd (Command.ofWord?_eq_some hcommand) (hword command)
    · rfl
  · exact classifyLine_of_mem h.stripBlanks_ne h.head?_ne_question hc hcommand false

/-! ## The prompt -/

/-- Source text is entered, and the prompt is not left. -/
theorem Shell.step_of_source {shell : Shell} {line text : String}
    (h : classifyLine line (!shell.pending.isEmpty) = .source text) :
    shell.step line = ((shell.enter text).1.map fun _ => false, (shell.enter text).2) := by
  unfold Shell.step
  rw [h]

/-- Source text is never mistaken for a command. Where nothing is held back, a line that reads as an
expression, or as one declaration or more, is entered as it is but for blanks around it, unless it
is the word of a command, which is that command. While text is held back, every line that has not
only blanks is entered, whatever it is, and the prompt is not left: never by a command, nor by a
failure where the prompt waits for a line and no integer is too long. -/
theorem source_is_no_command (shell : Shell) (line : String) :
    (shell.pending = "" → ∀ depth, IsComplete depth line →
      (∀ command : Command, stripBlanks line ≠ command.word) →
      classifyLine line false = .source (stripBlanks line) ∧
        shell.step line = ((shell.enter (stripBlanks line)).1.map fun _ => false,
          (shell.enter (stripBlanks line)).2)) ∧
    (∀ command : Command, stripBlanks line = command.word →
      classifyLine line false = .command command "" command.word) ∧
    (shell.pending ≠ "" → stripBlanks line ≠ "" →
      ∃ text, classifyLine line true = .source text ∧
        shell.step line = ((shell.enter text).1.map fun _ => false, (shell.enter text).2) ∧
        (shell.step line).1 ≠ .ok true ∧
        (shell.Ready → (∀ text, shell.completed? line = some text → ShortIntegers text) →
          (shell.step line).1 = .ok false)) := by
  refine ⟨?_, ?_, ?_⟩
  · intro hpending depth hcomplete hword
    have hsource := hcomplete.classifyLine_eq hword
    have hholding : (!shell.pending.isEmpty) = false := by
      rw [hpending]
      rfl
    exact ⟨hsource, Shell.step_of_source (by rw [hholding, hsource])⟩
  · intro command hword
    unfold classifyLine
    rw [hword]
    cases command <;> decide
  · intro hpending hne
    obtain ⟨text, htext⟩ := exists_classifyLine_holding hne
    have hholding : (!shell.pending.isEmpty) = true := by
      rw [Bool.not_eq_true', Bool.eq_false_iff, Ne, String.isEmpty_iff]
      exact hpending
    have hstep : shell.step line =
        ((shell.enter text).1.map fun _ => false, (shell.enter text).2) :=
      Shell.step_of_source (by rw [hholding, htext])
    have hstays : (shell.step line).1 ≠ .ok true := by
      rw [hstep]
      rcases (shell.enter text).1 with abort | _ <;> simp [Except.map]
    refine ⟨text, htext, hstep, hstays, ?_⟩
    intro hready hshort
    obtain ⟨⟨left, hleft⟩, -, -⟩ := hready.step hshort
    cases left with
    | true => exact absurd hleft hstays
    | false => exact hleft

/-- A declaration of a command's word is entered, and so is the word itself behind an open
parenthesis. -/
theorem source_is_no_command_declared :
    (Shell.fresh (.fresh true false) []).step " exit = \"x\" " =
        (((Shell.fresh (.fresh true false) []).enter "exit = \"x\"").1.map fun _ => false,
          ((Shell.fresh (.fresh true false) []).enter "exit = \"x\"").2) ∧
      (Shell.step ⟨.openPrompt (.fresh true false) [], "f(", Shell.secondaryPrompt⟩ "EOF").1 =
        .ok false := by
  have hstripped : stripBlanks " exit = \"x\" " = "exit = \"x\"" := by decide
  have hparse : parseModule 1 promptName " exit = \"x\" " =
      .ok ⟨⟨promptName, [⟨"exit", .string "x"⟩]⟩, []⟩ := by decide +kernel
  have hcomplete : IsComplete 1 " exit = \"x\" " := .inr ⟨_, hparse, rfl, List.cons_ne_nil _ _⟩
  have hword : ∀ command : Command, stripBlanks " exit = \"x\" " ≠ command.word := by
    intro command
    rw [hstripped]
    cases command <;> decide
  have hentered := ((source_is_no_command (.fresh (.fresh true false) [])
    " exit = \"x\" ").1 rfl 1 hcomplete hword).2
  have hheld : Shell.Held "f(" := fun _ => by decide
  have hopen : Shell.completed?
      ⟨.openPrompt (.fresh true false) [], "f(", Shell.secondaryPrompt⟩ "EOF" = none := by
    decide
  obtain ⟨text, -, -, -, hstays⟩ := (source_is_no_command
    ⟨.openPrompt (.fresh true false) [], "f(", Shell.secondaryPrompt⟩ "EOF").2.2 (by decide)
    (by decide)
  rw [hstripped] at hentered
  refine ⟨hentered, hstays ⟨⟨rfl, rfl, .empty⟩, hheld, rfl⟩ ?_⟩
  intro text htext
  rw [hopen] at htext
  cases htext

end QLanguage
