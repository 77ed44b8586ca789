import QLanguage.Proofs.Cutting.Tiling
import QLanguage.Proofs.Reading.Composition
import QLanguage.Proofs.Reading.Recovery
import QLanguage.Proofs.RoundTrip
import QLanguage.Proofs.Spelling

/-!
# A source as the value of a declaration

A source may be read as an expression, or as a module behind a name and an equals sign. Both come to
the same (`parse_named`). The lexemes behind the equals sign are those of the source at a distance
(`lexemes_named`), so the value is read side by side with the source alone. What the grammar derives
of one it derives of the other, and where the expression stops at a diagnostic, so does the value,
which makes it the first one of the module.
-/

namespace QLanguage

open Grammar

/-! ## Lexemes -/

/-- Behind a name and an equals sign, a source has the lexemes that it has alone. -/
theorem lexemes_named {n : String} (hname : isName n = true) (s : String) :
    ∃ head mark : Token, head.lexeme = .identifier n ∧ mark.lexeme = .punct .equal ∧
      lexemes (n ++ " = " ++ s) =
        .token head :: .token mark :: (lexemes s).map (Lexed.moved (n.length + 3)) := by
  have hspells : Spells (n.toList ++ [' '] ++ ['='] ++ [' '])
      ([.identifier n] ++ [] ++ [.punct .equal] ++ []) s.toList :=
    (((spells_name hname (noLetter_space _)).append (spells_space _)).append
      (spells_punct .equal _)).append (spells_space _)
  obtain ⟨ts, hts, hcut⟩ := hspells 0
  obtain ⟨head, ts, rfl, hhead, hts⟩ := List.map_eq_cons_iff.mp hts
  obtain ⟨mark, ts, rfl, hmark, hts⟩ := List.map_eq_cons_iff.mp hts
  obtain rfl := List.map_eq_nil_iff.mp hts
  have htext : (n ++ " = " ++ s).toList = n.toList ++ [' '] ++ ['='] ++ [' '] ++ s.toList := by
    simp
  have hlength : 0 + (n.toList ++ [' '] ++ ['='] ++ [' ']).length = 0 + (n.length + 3) := by
    simp [String.length_toList]
  refine ⟨head, mark, hhead, hmark, ?_⟩
  rw [lexemes, htext, hcut, hlength, lexemesFrom_add]
  rfl

/-- Behind a name and an equals sign, a source has the tokens that it has alone. -/
theorem tokens_named {n s : String} {ts : List Token} (hname : isName n = true)
    (htokens : tokens s = .ok ts) :
    ∃ head mark : Token, head.lexeme = .identifier n ∧ mark.lexeme = .punct .equal ∧
      tokens (n ++ " = " ++ s) =
        .ok (head :: mark :: ts.map (Token.moved (n.length + 3))) := by
  obtain ⟨head, mark, hhead, hmark, hlexemes⟩ := lexemes_named hname s
  refine ⟨head, mark, hhead, hmark, tokens_eq_ok_iff.mpr ?_⟩
  rw [hlexemes, tokens_eq_ok_iff.mp htokens, map_moved_token, List.map_cons, List.map_cons]

/-- Behind a name and an equals sign, a source starts at the length of both. -/
theorem length_named (n s : String) :
    (n ++ " = " ++ s).length = s.length + (n.length + 3) := by
  rw [String.length_append, String.length_append, Nat.add_comm]
  rfl

/-! ## What both readings accept -/

/-- The lexemes of one declaration are those of a module. -/
theorem Grammar.isModule_singleton_iff {ls : List Lexeme} {d : Declaration} :
    IsModule ls [d] ↔ IsDeclaration ls d := by
  constructor
  · intro h
    generalize hds : [d] = ds at h
    cases h with
    | nil => cases hds
    | cons first more =>
      cases hds
      cases more
      rwa [List.append_nil]
  · intro h
    have hmodule := IsModule.cons h .nil
    rwa [List.append_nil] at hmodule

/-- A module of one declaration is read without diagnostics exactly when the declaration derives
from its source and its value nests within the levels that are given. -/
theorem parseModule_eq_singleton_iff {depth : Nat} {name source : String} {d : Declaration} :
    parseModule depth name source = .ok ⟨⟨name, [d]⟩, []⟩ ↔
      Derives IsDeclaration source d ∧ d.value.nesting ≤ depth := by
  constructor
  · intro h
    obtain ⟨ds, hparsed, ⟨ts, htokens, hmodule⟩, hall⟩ := parseModule_sound h rfl
    cases hparsed
    exact ⟨⟨ts, htokens, isModule_singleton_iff.mp hmodule⟩, hall d List.mem_cons_self⟩
  · rintro ⟨⟨ts, htokens, hdeclaration⟩, hnesting⟩
    exact parseModule_complete name ⟨ts, htokens, isModule_singleton_iff.mpr hdeclaration⟩
      (List.forall_mem_singleton.mpr hnesting)

/-- A declaration derives from a source behind a name and an equals sign exactly when it has this
name, and its value derives from the source alone. -/
theorem derives_named_iff {n s : String} {ts : List Token} (hname : isName n = true)
    (htokens : tokens s = .ok ts) {d : Declaration} :
    Derives IsDeclaration (n ++ " = " ++ s) d ↔ d.name = n ∧ Derives IsExpression s d.value := by
  obtain ⟨head, mark, hhead, hmark, hnamed⟩ := tokens_named hname htokens
  have hlexemes : (head :: mark :: ts.map (Token.moved (n.length + 3))).map Token.lexeme =
      .identifier n :: .punct .equal :: ts.map Token.lexeme := by
    rw [List.map_cons, List.map_cons, hhead, hmark, List.map_map]
    rfl
  constructor
  · rintro ⟨ts', htokens', hdeclaration⟩
    cases hnamed.symm.trans htokens'
    rw [hlexemes] at hdeclaration
    cases hdeclaration with
    | mk _ hexpression => exact ⟨rfl, ts, htokens, hexpression⟩
  · rintro ⟨rfl, ts', htokens', hexpression⟩
    cases htokens.symm.trans htokens'
    exact ⟨_, hnamed, hlexemes ▸ .mk d.name hexpression⟩

/-! ## Where both readings stop -/

/-- A lexeme of a source is the same lexeme as itself. -/
theorem Denotes.agrees_self {text : List Char} {l : Lexeme} (h : Denotes text l) :
    l.agrees l = true := by
  cases h with
  | @float whole fraction value nearest =>
    -- Only what is no number differs from itself, and that is nearest to no decimal.
    cases value with
    | finite sign m e => simp [Lexeme.agrees, Binary64.equal]
    | infinite sign => simp [Lexeme.agrees, Binary64.equal]
    | nan => exact nearest.elim
  | _ => exact beq_self_eq_true _

/-- A diagnostic that found a lexeme of a source is the same finding further behind. -/
theorem Diagnostic.agrees_moved {d : Diagnostic} {t : Token} (h : d.found? = some t)
    (ht : t.lexeme.agrees t.lexeme = true) (distance : Nat) (source : String) :
    (d.moved distance source).agrees d = true := by
  cases d <;> cases h
  · exact Bool.and_eq_true_iff.mpr ⟨beq_self_eq_true _, ht⟩
  · exact ht
  · exact ht

namespace Reading

variable {depth : Nat} {s : String}

/-- A diagnostic of an expression is the same finding further behind. -/
theorem agrees_moved_of_run {ts : List Token} (htokens : tokens s = .ok ts) {d : Diagnostic}
    {c : Cursor}
    (h : (expression depth).run (Cursor.ofSource s) = (.error (.diagnostic d), c))
    (distance : Nat) (source : String) : (d.moved distance source).agrees d = true := by
  have hlexemes := tokens_eq_ok_iff.mp htokens
  obtain ⟨before, -, ⟨t, hfound, hmoves⟩ | ⟨rfl, -⟩⟩ :=
    breaks_expression depth (Cursor.inSource_ofSource s) h
  · have hmem : Lexed.token t ∈ lexemes s := by
      rw [show lexemes s = _ from hmoves.1]
      simp
    rw [hlexemes, List.mem_map_of_injective fun _ _ => Lexed.token.inj] at hmem
    have hlongest := (tiles_lexemesFrom List.drop_zero hlexemes).longest t hmem
    exact Diagnostic.agrees_moved hfound hlongest.denotes.agrees_self distance source
  · rfl

/-- Where the reading of a source as an expression stops, the expression does, unless the source
goes on behind it. -/
theorem run_expression_of_parseExpression {stop : Stop}
    (h : parseExpression depth s = .error stop)
    (hbehind : ∀ t, stop ≠ .diagnostic (.unexpected .endOfInput t))
    (hshort : ∀ digits, stop ≠ .overlong digits) :
    ∃ c, (expression depth).run (Cursor.ofSource s) = (.error stop, c) := by
  unfold parseExpression wholeExpression at h
  rcases hrun : (expression depth).run (Cursor.ofSource s) with ⟨stop' | e, c⟩
  · rw [Step.run_bind_error hrun] at h
    cases h
    exact ⟨c, rfl⟩
  · rw [Step.run_bind_ok hrun] at h
    -- Behind an expression stands nothing, another token or an integer that is too long.
    obtain ⟨_ | ⟨t | ⟨digits, place⟩, rest⟩, span, length⟩ := c
    · cases h
    · cases h
      exact absurd rfl (hbehind t)
    · cases h
      exact absurd rfl (hshort digits)

/-- An expression stops alike in a longer source that ends with its own. -/
theorem run_expression_moved {joined : String} {distance : Nat}
    (hlength : joined.length = s.length + distance) {stop : Stop} {c : Cursor}
    (h : (expression depth).run (Cursor.ofSource s) = (.error stop, c)) (span : Span) :
    ∃ stop' c', Stop.Paired (fun d d' => d' = d.moved distance joined) stop stop' ∧
      (expression depth).run ⟨(lexemes s).map (Lexed.moved distance), span, joined.length⟩ =
        (.error stop', c') := by
  obtain ⟨hend, -⟩ := (companions_moved "" hlength).expression depth (Cursor.ofSource s)
    ⟨(lexemes s).map (Lexed.moved distance), span, joined.length⟩ ⟨forall₂_moved _ _, rfl, rfl⟩
  rcases hrun : (expression depth).run
    ⟨(lexemes s).map (Lexed.moved distance), span, joined.length⟩ with ⟨result, c'⟩
  rw [h, hrun] at hend
  cases hend with
  | error hstop => exact ⟨_, c', hstop, rfl⟩

/-- A cursor before tokens leaves tokens. -/
theorem exists_left_of_leaves {all : List Token} {span : Span} {length : Nat} {c : Cursor}
    (h : (Cursor.mk (all.map .token) span length).Leaves c) :
    ∃ (left : List Token) (span' : Span), c = ⟨left.map .token, span', length⟩ := by
  obtain ⟨rest, span', length'⟩ := c
  obtain ⟨hsuffix, rfl⟩ := h
  obtain ⟨left, -, rfl⟩ := List.suffix_map_iff.mp hsuffix
  exact ⟨left, span', rfl⟩

/-- Where an expression may start, a value is an expression. -/
theorem run_value_of_starts {t : Token} (hstarts : startsExpression t.lexeme = true)
    (sourceName source name : String) (rest : List Lexed) (span : Span) (length : Nat) :
    (value depth sourceName source name).run ⟨.token t :: rest, span, length⟩ =
      (expression depth).run ⟨.token t :: rest, span, length⟩ := by
  unfold value
  rw [Step.run_bind_ok (run_peek_token _ _ _ _)]
  dsimp only
  rw [if_pos hstarts]

/-- A reading that runs out of levels does not skip. -/
theorem run_orSkip_of_tooDeep {α : Type} {reading : Reading α} {c c' : Cursor}
    (h : reading.run c = (.error .tooDeep, c')) :
    (orSkip reading).run c = (.error .tooDeep, c') := by
  unfold orSkip
  rw [Step.run_tryCatch, h]
  rfl

/-- A reading that runs out of levels is not recorded. -/
theorem run_recorded_of_tooDeep {α : Type} {reading : Reading α} {c c' : Cursor}
    (h : reading.run c = (.error .tooDeep, c')) :
    (recorded reading).run c = (.error .tooDeep, c') := by
  unfold recorded
  rw [Step.run_tryCatch, Step.run_bind_error h]
  rfl

end Reading

/-- A module of some tokens is read from its first declaration on. -/
theorem parseModule_of_token (depth : Nat) (name : String) {source : String} {t : Token}
    {rest : List Lexed} (hlexemes : lexemes source = .token t :: rest) :
    parseModule depth name source =
      ((do
        let entry ← Reading.recorded (Reading.declaration depth name source)
        return entry :: (← Reading.entriesWithin depth name source rest.length) :
          Reading (List Entry)).run (Cursor.ofSource source)).1.map (Parsed.ofEntries name) := by
  have hfuel : (lexemes source).length ≤ rest.length + 1 := by
    rw [hlexemes, List.length_cons]
  have hpeek : Reading.peek.run (Cursor.ofSource source) =
      (.ok (some t), Cursor.ofSource source) := by
    rw [Cursor.ofSource, hlexemes]
    exact Reading.run_peek_token _ _ _ _
  rw [parseModule_of_fuel depth name hfuel, Reading.entriesWithin, Step.run_bind_ok hpeek]

/-- Where the first declaration is recorded as a diagnostic, this is the first of the module. -/
theorem diagnostics_of_run_recorded {depth : Nat} {name source : String} {t : Token}
    {rest : List Lexed} (hlexemes : lexemes source = .token t :: rest) {d : Diagnostic} {c : Cursor}
    (hrun : (Reading.recorded (Reading.declaration depth name source)).run
      (Cursor.ofSource source) = (.ok (.error d), c))
    {parsed : Parsed} (hparse : parseModule depth name source = .ok parsed) :
    ∃ more, parsed.diagnostics = d :: more := by
  rw [parseModule_of_token depth name hlexemes, Step.run_bind_ok hrun] at hparse
  rcases hothers : (Reading.entriesWithin depth name source rest.length).run c with
    ⟨stop | entries, last⟩
  · rw [Step.run_bind_error hothers] at hparse
    cases hparse
  · rw [Step.run_bind_ok hothers] at hparse
    cases hparse
    exact ⟨_, rfl⟩

section

open Reading

variable {n s : String} (hname : isName n = true) {t : Token} {rest : List Lexed}
  (hfirst : lexemes s = .token t :: rest) (hstarts : startsExpression t.lexeme = true)

include hname hfirst hstarts

/-- Behind a name and an equals sign, a source that may start an expression is read as one. -/
theorem run_declaration_named (sourceName : String) :
    ∃ span, ∀ depth, (declaration depth sourceName (n ++ " = " ++ s)).run
        (Cursor.ofSource (n ++ " = " ++ s)) =
      (do return ⟨n, ← orSkip (expression depth)⟩ : Reading Declaration).run
        ⟨(lexemes s).map (Lexed.moved (n.length + 3)), span, (n ++ " = " ++ s).length⟩ := by
  obtain ⟨head, mark, hhead, hmark, hlexemes⟩ := lexemes_named hname s
  refine ⟨mark.span, fun depth => ?_⟩
  have hvalue : (orSkip (value depth sourceName (n ++ " = " ++ s) n)).run
      ⟨(lexemes s).map (Lexed.moved (n.length + 3)), mark.span, (n ++ " = " ++ s).length⟩ =
      (orSkip (expression depth)).run
        ⟨(lexemes s).map (Lexed.moved (n.length + 3)), mark.span, (n ++ " = " ++ s).length⟩ := by
    unfold orSkip
    rw [hfirst, List.map_cons, Step.run_tryCatch, Step.run_tryCatch, Lexed.moved,
      run_value_of_starts (t := t.moved (n.length + 3)) hstarts]
  rw [Cursor.ofSource, hlexemes,
    run_declaration_value depth sourceName _ hhead (kind_of_lexeme hmark), Step.run_bind, hvalue,
    ← Step.run_bind]

/-- Where the expression runs out of levels, so does the module. -/
theorem parseModule_named_tooDeep (name : String) {depth : Nat} {c : Cursor}
    (h : (expression depth).run (Cursor.ofSource s) = (.error .tooDeep, c)) :
    parseModule depth name (n ++ " = " ++ s) = .error .tooDeep := by
  obtain ⟨span, hdeclaration⟩ := run_declaration_named hname hfirst hstarts name
  obtain ⟨stop', c', hpaired, hmoved⟩ := run_expression_moved (length_named n s) h span
  cases hpaired
  have hrun := (hdeclaration depth).trans (Step.run_bind_error (run_orSkip_of_tooDeep hmoved))
  obtain ⟨head, mark, -, -, hlexemes⟩ := lexemes_named hname s
  rw [parseModule_of_token depth name hlexemes,
    Step.run_bind_error (run_recorded_of_tooDeep hrun)]
  rfl

/-- Where the expression stops at a diagnostic, this is the first diagnostic of the module, further
behind. -/
theorem parseModule_named_fault (name : String) {ts : List Token} (htokens : tokens s = .ok ts)
    {depth : Nat} {d : Diagnostic} {c : Cursor}
    (h : (expression depth).run (Cursor.ofSource s) = (.error (.diagnostic d), c))
    {parsed : Parsed} (hparse : parseModule depth name (n ++ " = " ++ s) = .ok parsed) :
    ∃ more, parsed.diagnostics = d.moved (n.length + 3) (n ++ " = " ++ s) :: more := by
  obtain ⟨span, hdeclaration⟩ := run_declaration_named hname hfirst hstarts name
  obtain ⟨stop', c', hpaired, hmoved⟩ := run_expression_moved (length_named n s) h span
  obtain ⟨d', rfl, rfl⟩ : ∃ d', stop' = .diagnostic d' ∧
      d' = d.moved (n.length + 3) (n ++ " = " ++ s) := by
    cases hpaired with
    | diagnostic hd => exact ⟨_, rfl, hd⟩
  -- Only tokens are left behind the fault, so what is skipped there stops at no integer.
  obtain ⟨left, span', rfl⟩ : ∃ (left : List Token) (span' : Span),
      c' = ⟨left.map .token, span', (n ++ " = " ++ s).length⟩ := by
    have hkeeps := keeps_expression depth
      ⟨(lexemes s).map (Lexed.moved (n.length + 3)), span, (n ++ " = " ++ s).length⟩
    rw [hmoved, tokens_eq_ok_iff.mp htokens, map_moved_token] at hkeeps
    exact exists_left_of_leaves hkeeps
  obtain ⟨skipped, following, span'', -, -, hskip⟩ := run_orSkip_of_fault hmoved
  have hrun := run_recorded_of_fault ((hdeclaration depth).trans (Step.run_bind_error hskip))
  obtain ⟨head, mark, -, -, hlexemes⟩ := lexemes_named hname s
  exact diagnostics_of_run_recorded hlexemes hrun hparse

end

/-! ## Both readings -/

/-- A source is read alike as an expression and, behind a name and an equals sign, as a module. The
module has no diagnostics and one declaration exactly when there is an expression, and then it
declares that expression by that name. If the source may start an expression but is none, for
another reason than a token behind it, then its diagnostic, further behind by the name and the
equals sign, is the first one of the module; it is the same finding. -/
theorem parse_named {n s : String} {ts : List Token} (hname : isName n = true)
    (htokens : tokens s = .ok ts) (depth : Nat) (name : String) :
    (∀ declaration, parseModule depth name (n ++ " = " ++ s) = .ok ⟨⟨name, [declaration]⟩, []⟩ ↔
      ∃ e, parseExpression depth s = .ok e ∧ declaration = ⟨n, e⟩) ∧
    ∀ t ∈ ts.head?, Reading.startsExpression t.lexeme = true →
      (parseExpression depth s = .error .tooDeep →
        parseModule depth name (n ++ " = " ++ s) = .error .tooDeep) ∧
      ∀ d, parseExpression depth s = .error (.diagnostic d) →
        (∀ t', d ≠ .unexpected .endOfInput t') →
        ∃ parsed more,
          parsed.diagnostics = d.moved (n.length + 3) (n ++ " = " ++ s) :: more ∧
          (d.moved (n.length + 3) (n ++ " = " ++ s)).agrees d = true ∧
          ∀ depth', (parseModule depth' name (n ++ " = " ++ s) = .ok parsed ∨
              parseModule depth' name (n ++ " = " ++ s) = .error .tooDeep) ∧
            (ts.length + 2 ≤ depth' →
              parseModule depth' name (n ++ " = " ++ s) = .ok parsed) := by
  refine ⟨fun declaration => ?_, fun t ht hstarts => ⟨fun hdeep => ?_, fun d hfault hbehind => ?_⟩⟩
  · rw [parseModule_eq_singleton_iff, derives_named_iff hname htokens]
    constructor
    · rintro ⟨⟨rfl, hderives⟩, hnesting⟩
      exact ⟨_, parseExpression_eq_ok_iff.mpr ⟨hderives, hnesting⟩, rfl⟩
    · rintro ⟨e, hread, rfl⟩
      obtain ⟨hderives, hnesting⟩ := parseExpression_eq_ok_iff.mp hread
      exact ⟨⟨rfl, hderives⟩, hnesting⟩
  · obtain ⟨rest, rfl⟩ := List.head?_eq_some_iff.mp ht
    obtain ⟨c, hrun⟩ := Reading.run_expression_of_parseExpression hdeep (by simp) (by simp)
    exact parseModule_named_tooDeep hname (tokens_eq_ok_iff.mp htokens) hstarts name hrun
  · obtain ⟨rest, rfl⟩ := List.head?_eq_some_iff.mp ht
    obtain ⟨c, hrun⟩ := Reading.run_expression_of_parseExpression hfault (by simpa using hbehind)
      (by simp)
    obtain ⟨head, mark, -, -, hnamed⟩ := tokens_named hname htokens
    obtain ⟨entries, -, hread⟩ := exists_segments name hnamed
    -- With levels enough for the module, the expression stops as it does with those given.
    let enough := max depth ((t :: rest).length + 2)
    have hparse := hread enough (by simp [enough])
    have hdeep := Reading.run_expression_levels (Nat.le_max_left depth _ : depth ≤ enough) hrun
      (by simp)
    obtain ⟨more, hmore⟩ := parseModule_named_fault hname (tokens_eq_ok_iff.mp htokens) hstarts name
      htokens hdeep hparse
    refine ⟨_, more, hmore, Reading.agrees_moved_of_run htokens hrun _ _, fun depth' =>
      ⟨parseModule_ok_or_tooDeep hread depth', fun hdepth' => hread depth' ?_⟩⟩
    rw [List.length_cons, List.length_cons, List.length_map]
    exact hdepth'

/-- A call of a variable is declared as it is read. A float among the arguments is reported as where
it stands behind the name, with another declaration behind it. -/
theorem parse_named_float_argument :
    isName "f" = true ∧
    parseModule 9 "m" ("f" ++ " = " ++ "g(y)") =
      .ok ⟨⟨"m", [⟨"f", .call "g" [.variable "y"]⟩]⟩, []⟩ ∧
    parseExpression 9 "g(1.5) h = \"b\"" = .error (.diagnostic
      (.expectedExpression ⟨.float (.finite false 6755399441055744 (-52)), ⟨2, 5⟩⟩)) ∧
    ∃ parsed more, parseModule 9 "m" ("f" ++ " = " ++ "g(1.5) h = \"b\"") = .ok parsed ∧
      parsed.diagnostics =
        .expectedExpression ⟨.float (.finite false 6755399441055744 (-52)), ⟨6, 9⟩⟩ :: more := by
  have hname : isName "f" = true := by decide
  obtain ⟨ts, htokens, -⟩ := Expr.derives_source (e := .call "g" [.variable "y"]) (by decide)
  have hcall : parseExpression 9 "g(y)" = .ok (.call "g" [.variable "y"]) :=
    parseExpression_source (e := .call "g" [.variable "y"]) (by decide) (by decide)
  obtain ⟨rest, htokens', hlength⟩ : ∃ rest, tokens "g(1.5) h = \"b\"" =
      .ok (⟨.identifier "g", ⟨0, 1⟩⟩ :: rest) ∧ rest.length = 6 :=
    ⟨[⟨.punct .openParen, ⟨1, 2⟩⟩, ⟨.float (.finite false 6755399441055744 (-52)), ⟨2, 5⟩⟩,
      ⟨.punct .closeParen, ⟨5, 6⟩⟩, ⟨.identifier "h", ⟨7, 8⟩⟩, ⟨.punct .equal, ⟨9, 10⟩⟩,
      ⟨.string "b", ⟨11, 14⟩⟩], by decide +kernel, rfl⟩
  have hfloat : parseExpression 9 "g(1.5) h = \"b\"" = .error (.diagnostic
      (.expectedExpression ⟨.float (.finite false 6755399441055744 (-52)), ⟨2, 5⟩⟩)) := by
    decide +kernel
  obtain ⟨parsed, more, hmore, -, hread⟩ :=
    ((parse_named hname htokens' 9 "m").2 _ rfl rfl).2 _ hfloat (by simp)
  refine ⟨hname, ((parse_named hname htokens 9 "m").1 _).2 ⟨_, hcall, rfl⟩, hfloat, parsed, more,
    (hread 9).2 ?_, hmore⟩
  rw [List.length_cons, hlength]

end QLanguage
