import QLanguage.Proofs.Grammar
import QLanguage.Proofs.Lexing
import QLanguage.Tree.Source

/-!
# What the source form of a tree spells

Characters spell some lexemes before what follows them when cutting them yields exactly these
lexemes and then goes on with what follows. Only words mind what follows: a letter behind a word
would become part of it. The source form of a well-formed tree spells lexemes that derive the tree,
because the separators that it puts between the parts are blanks and punctuation marks.
-/

namespace QLanguage

open Grammar

/-- Before what follows them, characters are cut into some lexemes. -/
def Spells (cs : List Char) (ls : List Lexeme) (rest : List Char) : Prop :=
  ∀ offset : Nat, ∃ ts : List Token, ts.map Token.lexeme = ls ∧
    lexemesFrom offset (cs ++ rest) = ts.map .token ++ lexemesFrom (offset + cs.length) rest

/-- No letter comes first. -/
def NoLetter (rest : List Char) : Prop := ∀ c ∈ rest.head?, isLetter c = false

/-! ## Classes of characters -/

/-- A visible character of those with the first codes is not blank. -/
theorem isBlank_of_visible {c : Char} (hlow : 0x20 < c.toNat) (hhigh : c.toNat < 0x7f) :
    isBlank c = false := by
  rw [Bool.eq_false_iff]
  intro hblank
  obtain ⟨r, hr, hfrom, hto⟩ := (CharClass.contains_iff blanks c).mp hblank
  -- None of the ranges of blanks meets those of the visible characters.
  simp only [blanks, List.mem_cons, List.not_mem_nil, or_false] at hr
  rcases hr with rfl | rfl | rfl | rfl | rfl | rfl | rfl | rfl | rfl | rfl <;> omega

/-- The codes of letters. -/
theorem isLetter_iff_toNat {c : Char} : isLetter c = true ↔
    c.toNat = 95 ∨ 97 ≤ c.toNat ∧ c.toNat ≤ 122 ∨ 65 ≤ c.toNat ∧ c.toNat ≤ 90 := by
  have hmark : (c == '_') = true ↔ c.toNat = 95 :=
    beq_iff_eq.trans (Char.toNat_inj (d := '_')).symm
  have hupper : c.isUpper = true ↔ 65 ≤ c.toNat ∧ c.toNat ≤ 90 := decide_eq_true_iff
  have hlower : c.isLower = true ↔ 97 ≤ c.toNat ∧ c.toNat ≤ 122 :=
    Bool.and_eq_true_iff.trans (and_congr decide_eq_true_iff decide_eq_true_iff)
  have hletters : c.isAlpha = (c.isUpper || c.isLower) := rfl
  rw [isLetter, Bool.or_eq_true, hletters, Bool.or_eq_true, hmark, hupper, hlower,
    or_comm (b := _ ∧ _)]

/-- A letter is not blank. -/
theorem isBlank_of_isLetter {c : Char} (h : isLetter c = true) : isBlank c = false := by
  have hletter := isLetter_iff_toNat.1 h
  apply isBlank_of_visible <;> omega

/-- A digit is not blank. -/
theorem isBlank_of_isDigit {c : Char} (h : c.isDigit = true) : isBlank c = false := by
  have hdigit : 48 ≤ c.toNat ∧ c.toNat ≤ 57 := by
    simp only [Char.isDigit, Bool.and_eq_true, decide_eq_true_eq, UInt32.le_iff_toNat_le] at h
    exact h
  apply isBlank_of_visible <;> omega

/-- A punctuation mark is not a letter. -/
theorem isLetter_punct (p : Punct) : isLetter p.char = false := by
  cases p <;> decide

/-- A punctuation mark is not blank. -/
theorem isBlank_punct (p : Punct) : isBlank p.char = false := by
  cases p <;> decide

/-- A letter is not a punctuation mark. -/
theorem ofChar?_of_isLetter {c : Char} (h : isLetter c = true) : Punct.ofChar? c = none := by
  cases hp : Punct.ofChar? c with
  | none => rfl
  | some p =>
    rw [Punct.ofChar?_eq_some_iff] at hp
    rw [hp, isLetter_punct] at h
    cases h

/-- No letter comes first at the end. -/
theorem noLetter_nil : NoLetter [] := by
  intro c hc
  cases hc

/-- No letter comes first before a mark. -/
theorem noLetter_punct (p : Punct) (rest : List Char) : NoLetter (p.char :: rest) := by
  intro c hc
  cases hc
  exact isLetter_punct p

/-- No letter comes first before a space. -/
theorem noLetter_space (rest : List Char) : NoLetter (' ' :: rest) := by
  intro c hc
  cases hc
  decide

/-! ## Spelling piece by piece -/

/-- Nothing spells nothing. -/
theorem Spells.nil (rest : List Char) : Spells [] [] rest := fun _ => ⟨[], rfl, rfl⟩

/-- What is spelled piece by piece is spelled as a whole. -/
theorem Spells.append {cs cs' rest : List Char} {ls ls' : List Lexeme}
    (h : Spells cs ls (cs' ++ rest)) (h' : Spells cs' ls' rest) :
    Spells (cs ++ cs') (ls ++ ls') rest := by
  intro offset
  obtain ⟨ts, rfl, hcut⟩ := h offset
  obtain ⟨ts', rfl, hcut'⟩ := h' (offset + cs.length)
  refine ⟨ts ++ ts', List.map_append, ?_⟩
  rw [List.append_assoc, hcut, hcut', List.map_append, List.append_assoc, List.length_append,
    Nat.add_assoc]

/-- A blank spells nothing. -/
theorem spells_blank {c : Char} (h : isBlank c = true) (rest : List Char) : Spells [c] [] rest := by
  intro offset
  refine ⟨[], rfl, ?_⟩
  rw [List.singleton_append, lexemesFrom, if_pos h]
  rfl

/-- A space spells nothing. -/
theorem spells_space (rest : List Char) : Spells [' '] [] rest := spells_blank (by decide) rest

/-- A cut spells its lexeme. -/
theorem spells_cut (kind : Kind) {c : Char} {cs rest : List Char} {l : Lexeme}
    (hblank : isBlank c = false) (hcut : cut c (cs ++ rest) = ⟨kind, c :: cs, rest⟩)
    (hlexeme : ∀ span, Lexed.ofCut kind (c :: cs) span = .token ⟨l, span⟩) :
    Spells (c :: cs) [l] rest := by
  intro offset
  refine ⟨[⟨l, (offset : Int), ((offset + (c :: cs).length : Nat) : Int)⟩], rfl, ?_⟩
  rw [List.cons_append, lexemesFrom, if_neg (by rw [hblank]; decide)]
  dsimp only
  rw [hcut]
  dsimp only
  rw [hlexeme]
  rfl

/-- A punctuation mark spells itself. -/
theorem spells_punct (p : Punct) (rest : List Char) : Spells [p.char] [.punct p] rest := by
  have hchar : Punct.ofChar? p.char = some p := (Punct.ofChar?_eq_some_iff _ _).mpr rfl
  refine spells_cut (.punct p) (isBlank_punct p) ?_ fun _ => rfl
  unfold cut
  rw [hchar]
  rfl

/-- A word spells an identifier, unless a letter follows. -/
theorem spells_name {name : String} (h : isName name = true) {rest : List Char}
    (hrest : NoLetter rest) : Spells name.toList [.identifier name] rest := by
  unfold isName at h
  rw [Bool.and_eq_true] at h
  obtain ⟨hne, hall⟩ := h
  cases hcs : name.toList with
  | nil =>
    rw [hcs] at hne
    cases hne
  | cons c cs =>
    rw [hcs, List.all_cons, Bool.and_eq_true] at hall
    obtain ⟨hc, hcs'⟩ := hall
    rw [List.all_eq_true] at hcs'
    -- The word ends where the letters end.
    have hstop : rest.takeWhile isLetter = [] ∧ rest.dropWhile isLetter = rest := by
      cases rest with
      | nil => exact ⟨rfl, rfl⟩
      | cons d rest =>
        have hd := hrest d rfl
        rw [List.takeWhile_cons, List.dropWhile_cons, hd]
        exact ⟨rfl, rfl⟩
    have htake : (cs ++ rest).takeWhile isLetter = cs := by
      rw [List.takeWhile_append_of_pos hcs', hstop.1, List.append_nil]
    have hdrop : (cs ++ rest).dropWhile isLetter = rest := by
      rw [List.dropWhile_append_of_pos hcs', hstop.2]
    refine spells_cut .identifier (isBlank_of_isLetter hc) ?_ fun span => ?_
    · unfold cut
      rw [ofChar?_of_isLetter hc]
      dsimp only
      rw [if_pos hc, htake, hdrop]
    · rw [← hcs]
      unfold Lexed.ofCut
      rw [String.ofList_toList]

/-- A raw text between quotation marks spells a string. -/
theorem spells_string {text : String} (h : isRaw text.toList = true) (rest : List Char) :
    Spells (quotationMark :: (text.toList ++ [quotationMark])) [.string text] rest := by
  refine spells_cut .string (by decide) ?_ fun span => ?_
  · unfold cut
    rw [List.append_assoc, List.singleton_append, closeString?_of_isRaw h]
    rfl
  · unfold Lexed.ofCut
    dsimp only
    rw [List.drop_one, List.tail_cons, List.dropLast_concat, String.ofList_toList]

/-! ## Rows of texts -/

section Rows

variable {α : Type} {IsItem : List Lexeme → α → Prop} {text : α → String}

/-- Wherever no letter follows it, the text of an item spells lexemes that derive the item. -/
def TextSpells (IsItem : List Lexeme → α → Prop) (text : α → String) (a : α) : Prop :=
  ∀ rest, NoLetter rest → ∃ ls, IsItem ls a ∧ Spells (text a).toList ls rest

/-- The texts of items that stand behind marks. -/
def tailText (mark : Punct) (text : α → String) (as : List α) : List Char :=
  (as.map text).flatMap fun t => [mark.char, ' '] ++ t.toList

/-- Inside a row, a mark or what follows the row comes behind an item, so no letter does. -/
theorem noLetter_tailText (mark : Punct) (as : List α) {rest : List Char} (hrest : NoLetter rest) :
    NoLetter (tailText mark text as ++ rest) := by
  cases as with
  | nil => exact hrest
  | cons b bs => exact noLetter_punct mark _

/-- Texts behind marks spell items behind marks. -/
theorem spells_tail (mark : Punct) {as : List α} (h : ∀ a ∈ as, TextSpells IsItem text a)
    {rest : List Char} (hrest : NoLetter rest) :
    ∃ ls, IsTail mark IsItem ls as ∧ Spells (tailText mark text as) ls rest := by
  induction as with
  | nil => exact ⟨[], .nil, .nil rest⟩
  | cons a as ih =>
    rw [List.forall_mem_cons] at h
    obtain ⟨ls', htail, hspells'⟩ := ih h.2
    obtain ⟨ls, hitem, hspells⟩ := h.1 _ (noLetter_tailText mark as hrest)
    refine ⟨.punct mark :: (ls ++ ls'), .cons hitem htail, ?_⟩
    unfold tailText
    rw [List.map_cons, List.flatMap_cons, List.append_assoc]
    exact (spells_punct mark _).append ((spells_space _).append (hspells.append hspells'))

/-- Texts with marks between them spell a row. -/
theorem spells_row (mark : Punct) {separator : String} (hmark : separator.toList = [mark.char, ' '])
    {a : α} {as : List α} (h : ∀ b ∈ a :: as, TextSpells IsItem text b) {rest : List Char}
    (hrest : NoLetter rest) :
    ∃ ls, IsRow mark IsItem ls (a :: as) ∧
      Spells (separator.intercalate ((a :: as).map text)).toList ls rest := by
  rw [List.forall_mem_cons] at h
  obtain ⟨ls', htail, hspells'⟩ := spells_tail mark h.2 hrest
  obtain ⟨ls, hitem, hspells⟩ := h.1 _ (noLetter_tailText mark as hrest)
  refine ⟨ls ++ ls', .mk hitem htail, ?_⟩
  rw [List.map_cons, toList_intercalate_cons, hmark]
  exact hspells.append hspells'

/-- Texts with commas between them, in parentheses, spell items between parentheses. -/
theorem spells_parenthesised {as : List α} (h : ∀ a ∈ as, TextSpells IsItem text a)
    (rest : List Char) :
    ∃ ls, IsParenthesised IsItem ls as ∧
      Spells ([Punct.openParen.char] ++ ((", ".intercalate (as.map text)).toList ++
        [Punct.closeParen.char])) ls rest := by
  have hcomma : ", ".toList = [Punct.comma.char, ' '] := by decide
  have hopen := fun rest => spells_punct .openParen rest
  have hclose := spells_punct .closeParen rest
  cases as with
  | nil => exact ⟨_, .empty, (hopen _).append hclose⟩
  | cons a as =>
    obtain ⟨ls, hrow, hspells⟩ := spells_row .comma hcomma h (noLetter_punct .closeParen rest)
    exact ⟨_, .items hrow, (hopen _).append (hspells.append hclose)⟩

end Rows

/-! ## Trees -/

/-- The source forms of expressions are those of each of them. -/
theorem Expr.sources_eq_map (es : List Expr) : Expr.sources es = es.map Expr.source := by
  induction es with
  | nil => rfl
  | cons e es ih => rw [Expr.sources, ih, List.map_cons]

/-- The source forms of patterns are those of each of them. -/
theorem Pattern.sources_eq_map (ps : List Pattern) :
    Pattern.sources ps = ps.map Pattern.source := by
  induction ps with
  | nil => rfl
  | cons p ps ih => rw [Pattern.sources, ih, List.map_cons]

/-- The source forms of clauses are those of each of them. -/
theorem Clause.sources_eq_map (cs : List Clause) : Clause.sources cs = cs.map Clause.source := by
  induction cs with
  | nil => rfl
  | cons c cs ih => rw [Clause.sources, ih, List.map_cons]

/-- The source form of a well-formed pattern spells the pattern. -/
theorem spells_pattern {p : Pattern} (h : p.wellFormed = true) :
    TextSpells IsPattern Pattern.source p := by
  intro rest hrest
  cases p with
  | bind name => exact ⟨_, .bind name, spells_name h hrest⟩
  | wildcard => cases h
  | literal value => cases h

/-- The source form of a clause spells the clause when its patterns are well formed and the source
form of its body spells the body. -/
theorem spells_clause {patterns : List Pattern} {body : Expr}
    (hpatterns : ∀ p ∈ patterns, p.wellFormed = true)
    (hbody : TextSpells IsExpression Expr.source body) :
    TextSpells IsClause Clause.source (.mk patterns body) := by
  intro rest _
  have htext : (Clause.source (.mk patterns body)).toList =
      ([Punct.openParen.char] ++ ((", ".intercalate (patterns.map Pattern.source)).toList ++
        [Punct.closeParen.char])) ++ ([' '] ++ ([Punct.openBrace.char] ++ ([' '] ++
          (body.source.toList ++ ([' '] ++ [Punct.closeBrace.char]))))) := by
    rw [Clause.source, Pattern.sources_eq_map]
    simp [Punct.char]
  -- The space before the closing brace ends the body, also one that is a word.
  obtain ⟨ls', hinside, hspells'⟩ :=
    hbody ([' '] ++ [Punct.closeBrace.char] ++ rest) (noLetter_space _)
  have hbraces : Spells ([' '] ++ ([Punct.openBrace.char] ++ ([' '] ++ (body.source.toList ++
      ([' '] ++ [Punct.closeBrace.char]))))) (.punct .openBrace :: (ls' ++ [.punct .closeBrace]))
      rest :=
    (spells_space _).append ((spells_punct .openBrace _).append
      ((spells_space _).append (hspells'.append
        ((spells_space _).append (spells_punct .closeBrace rest)))))
  obtain ⟨ls, hparameters, hspells⟩ :=
    spells_parenthesised (fun p hp => spells_pattern (hpatterns p hp)) _
  refine ⟨_, .mk hparameters hinside, ?_⟩
  rw [htext]
  exact hspells.append hbraces

/-- The source form of a well-formed expression spells the expression. The induction is on the
levels to which it nests. -/
theorem spells_expression_within (depth : Nat) {e : Expr} (hnesting : e.nesting ≤ depth)
    (h : e.wellFormed = true) : TextSpells IsExpression Expr.source e := by
  induction depth generalizing e with
  | zero =>
    have hpos := e.nesting_pos
    omega
  | succ depth ih =>
    intro rest hrest
    cases e with
    | string text =>
      rw [Expr.wellFormed] at h
      refine ⟨_, .string text, ?_⟩
      have htext : (Expr.string text).source.toList =
          quotationMark :: (text.toList ++ [quotationMark]) := by
        rw [Expr.source]
        simp [quotationMark]
      rw [htext]
      exact spells_string h rest
    | «variable» name =>
      rw [Expr.wellFormed] at h
      exact ⟨_, .variable name, spells_name h hrest⟩
    | call name args =>
      rw [Expr.wellFormed, Bool.and_eq_true, Expr.allWellFormed_iff] at h
      rw [Expr.nesting_call_le_iff] at hnesting
      obtain ⟨ls, harguments, hspells⟩ :=
        spells_parenthesised (fun e he => ih (hnesting e he) (h.2 e he)) rest
      refine ⟨_, .call name harguments, ?_⟩
      have htext : (Expr.call name args).source.toList = name.toList ++ ([Punct.openParen.char] ++
          ((", ".intercalate (args.map Expr.source)).toList ++ [Punct.closeParen.char])) := by
        rw [Expr.source, Expr.sources_eq_map]
        simp [Punct.char]
      rw [htext]
      exact (spells_name h.1 (noLetter_punct .openParen _)).append hspells
    | function first others =>
      rw [Expr.wellFormed, Bool.and_eq_true, Clause.allWellFormed_iff] at h
      rw [Expr.nesting_function_le_iff] at hnesting
      have hclauses : ∀ c ∈ first :: others, TextSpells IsClause Clause.source c := by
        rintro ⟨patterns, body⟩ hc
        have hwell : (Clause.mk patterns body).wellFormed = true := by
          rcases List.mem_cons.mp hc with heq | hmem
          · rw [heq]
            exact h.1
          · exact h.2 _ hmem
        rw [Clause.wellFormed, Bool.and_eq_true, List.all_eq_true] at hwell
        exact spells_clause hwell.1 (ih (hnesting _ hc) hwell.2)
      have hsemicolon : "; ".toList = [Punct.semicolon.char, ' '] := by decide
      obtain ⟨ls, hrow, hspells⟩ := spells_row .semicolon hsemicolon hclauses hrest
      refine ⟨_, .function hrow, ?_⟩
      rw [Expr.source, Clause.sources_eq_map]
      exact hspells

/-- The source form of a well-formed expression spells the expression. -/
theorem spells_expression {e : Expr} (h : e.wellFormed = true) :
    TextSpells IsExpression Expr.source e :=
  spells_expression_within e.nesting (Nat.le_refl _) h

/-- The source form of a well-formed declaration spells the declaration. -/
theorem spells_declaration {d : Declaration} (h : d.wellFormed = true) :
    TextSpells IsDeclaration Declaration.source d := by
  intro rest hrest
  unfold Declaration.wellFormed at h
  rw [Bool.and_eq_true] at h
  have htext : d.source.toList =
      d.name.toList ++ ([' '] ++ ([Punct.equal.char] ++ ([' '] ++ d.value.source.toList))) := by
    rw [Declaration.source]
    simp [Punct.char]
  obtain ⟨ls, hexpression, hspells⟩ := spells_expression h.2 rest hrest
  refine ⟨_, .mk d.name hexpression, ?_⟩
  rw [htext]
  exact (spells_name h.1 (noLetter_space _)).append ((spells_space _).append
    ((spells_punct .equal _).append ((spells_space _).append hspells)))

/-- Declarations one a line spell a module. -/
theorem spells_lines {ds : List Declaration} (h : ∀ d ∈ ds, d.wellFormed = true) :
    ∃ ls, IsModule ls ds ∧ Spells ("\n".intercalate (ds.map Declaration.source)).toList ls [] := by
  have hbreak : isBlank '\n' = true := by decide
  induction ds with
  | nil => exact ⟨[], .nil, .nil []⟩
  | cons d ds ih =>
    rw [List.forall_mem_cons] at h
    obtain ⟨ls', hmodule, hspells'⟩ := ih h.2
    cases ds with
    | nil =>
      obtain ⟨ls, hdeclaration, hspells⟩ := spells_declaration h.1 [] noLetter_nil
      cases hmodule
      exact ⟨_, .cons hdeclaration .nil, by rwa [List.append_nil]⟩
    | cons d' ds =>
      -- The line break ends a declaration, also one whose value is a word.
      have hline : NoLetter
          ('\n' :: (("\n".intercalate ((d' :: ds).map Declaration.source)).toList ++ [])) := by
        intro c hc
        cases hc
        decide
      obtain ⟨ls, hdeclaration, hspells⟩ := spells_declaration h.1 _ hline
      refine ⟨_, .cons hdeclaration hmodule, ?_⟩
      have htext : ("\n".intercalate ((d :: d' :: ds).map Declaration.source)).toList =
          d.source.toList ++
            (['\n'] ++ ("\n".intercalate ((d' :: ds).map Declaration.source)).toList) := by
        rw [List.map_cons, List.map_cons, String.intercalate_cons_cons, String.toList_append,
          String.toList_append, List.append_assoc]
        rfl
      rw [htext]
      exact hspells.append ((spells_blank hbreak _).append hspells')

end QLanguage
