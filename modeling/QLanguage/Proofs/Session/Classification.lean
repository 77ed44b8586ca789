import QLanguage.Proofs.RoundTrip
import QLanguage.Proofs.Session.Lines

/-!
# A line goes to the reading that accepts it

Two tokens decide how a line is read: a name with an equals sign behind it starts declarations, and
everything else an expression. In the grammar every declaration starts this way and no expression
does (`IsExpression.ne_mark`), so the look at the front of the line is right for every line that one
of the readings accepts, and no line is accepted by both.
-/

namespace QLanguage

open Grammar Step

/-! ## How declarations and expressions start -/

namespace Grammar

/-- Declarations start with a name and an equals sign. -/
theorem IsModule.exists_mark {ls : List Lexeme} {ds : List Declaration} (h : IsModule ls ds)
    (hne : ds ≠ []) : ∃ name ls', ls = .identifier name :: .punct .equal :: ls' := by
  cases h with
  | nil => exact absurd rfl hne
  | cons first more =>
    obtain ⟨name, hexpression⟩ := first
    exact ⟨name, _, rfl⟩

/-- No expression starts with a name and an equals sign. -/
theorem IsExpression.ne_mark {ls ls' : List Lexeme} {e : Expr} {name : String}
    (h : IsExpression ls e) : ls ≠ .identifier name :: .punct .equal :: ls' := by
  rintro rfl
  generalize hls : Lexeme.identifier name :: .punct .equal :: ls' = ls at h
  cases h with
  | string text => cases hls
  | «variable» name => cases hls
  | call name arguments =>
    -- Behind the name of a call stands an opening parenthesis.
    obtain ⟨inside, rfl, -⟩ := isParenthesised_iff.mp arguments
    cases hls
  | function clauses =>
    obtain ⟨inside, rfl⟩ := (IsExpression.function clauses).exists_openParen
    cases hls

/-- The lexemes of a module are not those of an expression. -/
theorem IsModule.not_isExpression {ls : List Lexeme} {ds : List Declaration} (h : IsModule ls ds)
    (e : Expr) : ¬IsExpression ls e := by
  intro hexpression
  cases h with
  | nil =>
    obtain ⟨l, ls', hls, -⟩ := hexpression.exists_first
    cases hls
  | cons first more =>
    obtain ⟨name, ls', hls⟩ := (IsModule.cons first more).exists_mark (List.cons_ne_nil _ _)
    exact hexpression.ne_mark hls

end Grammar

/-- Tokens of a source start a declaration exactly when their lexemes do. -/
theorem startsDeclaration_iff {ts : List Token} (hsource : ∀ t ∈ ts, t.lexeme.inSource = true) :
    StartsDeclaration ts ↔
      ∃ name ls, ts.map Token.lexeme = .identifier name :: .punct .equal :: ls := by
  constructor
  · rintro ⟨head, mark, rest, rfl, hhead, hmark⟩
    rw [List.forall_mem_cons, List.forall_mem_cons] at hsource
    obtain ⟨name, hname⟩ := (Lexeme.kind_eq_identifier_iff hsource.1).mp hhead
    have hequal := (Lexeme.kind_eq_punct_iff hsource.2.1 .equal).mp hmark
    exact ⟨name, rest.map Token.lexeme, by rw [List.map_cons, List.map_cons, hname, hequal]⟩
  · rintro ⟨name, ls, hls⟩
    obtain ⟨head, ts, rfl, hname, hls⟩ := List.map_eq_cons_iff.mp hls
    obtain ⟨mark, ts, rfl, hequal, -⟩ := List.map_eq_cons_iff.mp hls
    exact ⟨head, mark, ts, rfl, congrArg Lexeme.kind hname, congrArg Lexeme.kind hequal⟩

/-! ## The look at the front of a line -/

/-- The look at the front of a line finds whether a declaration starts. -/
theorem Reading.run_startsDeclaration (ts : List Token) (span : Span) (length : Nat) :
    ∃ answer c, startsDeclaration.run ⟨ts.map .token, span, length⟩ = (.ok answer, c) ∧
      (answer = true ↔ StartsDeclaration ts) := by
  unfold startsDeclaration
  cases ts with
  | nil => exact ⟨false, _, rfl, by simp [StartsDeclaration]⟩
  | cons head ts =>
    rw [List.map_cons, run_bind_ok (run_peek_token _ _ _ _)]
    dsimp only
    by_cases hname : head.kind = .identifier
    · rw [if_pos hname, run_bind_ok (run_next_token _ _ _ _)]
      cases ts with
      | nil => exact ⟨false, _, rfl, by simp [StartsDeclaration]⟩
      | cons mark ts =>
        rw [List.map_cons, run_bind_ok (run_peek_token _ _ _ _)]
        exact ⟨_, _, rfl, by simp [StartsDeclaration, hname]⟩
    · rw [if_neg hname]
      exact ⟨false, _, rfl, by simp [StartsDeclaration, hname]⟩

/-- The look at the front of a line finds whether its lexemes start a declaration. -/
theorem exists_isDeclaration {line : String} {ts : List Token} (htokens : tokens line = .ok ts) :
    ∃ answer, isDeclaration line = .ok answer ∧ (answer = true ↔
      ∃ name ls, ts.map Token.lexeme = .identifier name :: .punct .equal :: ls) := by
  obtain ⟨answer, c, hrun, hanswer⟩ := Reading.run_startsDeclaration ts .origin line.length
  refine ⟨answer, ?_, hanswer.trans (startsDeclaration_iff (inSource_of_tokens htokens))⟩
  rw [isDeclaration, Cursor.ofSource, tokens_eq_ok_iff.mp htokens, hrun]

/-- A line that reads as declarations, and at least as one, is taken for declarations. -/
theorem isDeclaration_of_parseModule {depth : Nat} {name line : String} {items : List Declaration}
    (h : parseModule depth name line = .ok ⟨⟨name, items⟩, []⟩) (hne : items ≠ []) :
    isDeclaration line = .ok true := by
  obtain ⟨ds, hparsed, ⟨ts, htokens, hmodule⟩, -⟩ := parseModule_sound h rfl
  cases hparsed
  obtain ⟨answer, hanswer, hiff⟩ := exists_isDeclaration htokens
  rw [hanswer, hiff.mpr (hmodule.exists_mark hne)]

/-- A line that reads as an expression is taken for one. -/
theorem isDeclaration_of_parseExpression {depth : Nat} {line : String} {e : Expr}
    (h : parseExpression depth line = .ok e) : isDeclaration line = .ok false := by
  obtain ⟨⟨ts, htokens, hexpression⟩, -⟩ := parseExpression_eq_ok_iff.mp h
  obtain ⟨answer, hanswer, hiff⟩ := exists_isDeclaration htokens
  cases answer with
  | false => exact hanswer
  | true =>
    obtain ⟨name, ls, hls⟩ := hiff.mp rfl
    exact absurd hls hexpression.ne_mark

/-! ## Lines that a reading accepts -/

/-- What reads as declarations is read as these. -/
theorem readLine_of_parseModule {line : String} {items : List Declaration}
    (h : parseModule nestingLimit promptName line = .ok ⟨⟨promptName, items⟩, []⟩)
    (hne : items ≠ []) : readLine line = .ok (.declarations items) := by
  rw [readLine, isDeclaration_of_parseModule h hne, h]
  exact if_pos rfl

/-- What reads as an expression is read as this. -/
theorem readLine_of_parseExpression {line : String} {e : Expr}
    (h : parseExpression nestingLimit line = .ok e) : readLine line = .ok (.expression e) := by
  rw [readLine, isDeclaration_of_parseExpression h, h]

/-- The two tokens at the front of a line tell how it is read. A line that reads as one declaration
or more, without diagnostics, is taken for declarations, and one that reads as an expression is not;
so no line reads as both. A session evaluates what the accepting reading gives, on its machine: the
declarations, or the expression, whose value becomes a result. -/
theorem line_goes_to_accepting_reading (line : String) :
    (∀ depth name items, parseModule depth name line = .ok ⟨⟨name, items⟩, []⟩ → items ≠ [] →
      isDeclaration line = .ok true) ∧
    (∀ depth e, parseExpression depth line = .ok e → isDeclaration line = .ok false) ∧
    (∀ depth depth' name items e, parseModule depth name line = .ok ⟨⟨name, items⟩, []⟩ →
      parseExpression depth' line ≠ .ok e) ∧
    (∀ items, parseModule nestingLimit promptName line = .ok ⟨⟨promptName, items⟩, []⟩ →
      items ≠ [] → ∀ w, (Work.addLine line).run w =
        (Work.evaluate w.machine (Eval.declareAll nestingLimit items)).run (w.noting line)) ∧
    ∀ e, parseExpression nestingLimit line = .ok e → ∀ w, (Work.addLine line).run w =
      (do
        let value ← Work.evaluate w.machine (Eval.eval nestingLimit e)
        Work.modifySession fun s => { s with results := s.results ++ [value] }).run
          (w.noting line) := by
  refine ⟨fun depth name items => isDeclaration_of_parseModule,
    fun depth e => isDeclaration_of_parseExpression, ?_, ?_, ?_⟩
  · intro depth depth' name items e hmodule hexpression
    obtain ⟨ds, -, ⟨ts, htokens, hderived⟩, -⟩ := parseModule_sound hmodule rfl
    obtain ⟨⟨ts', htokens', hderived'⟩, -⟩ := parseExpression_eq_ok_iff.mp hexpression
    cases htokens.symm.trans htokens'
    exact hderived.not_isExpression e hderived'
  · intro items hmodule hne w
    rw [Work.run_addLine, readLine_of_parseModule hmodule hne, Work.run_evaluate]
    rfl
  · intro e hexpression w
    rw [Work.run_addLine, readLine_of_parseExpression hexpression]
    dsimp only
    have hevaluate := Work.run_evaluate w.machine (Eval.eval nestingLimit e) (w.noting line)
    rcases hrun : (Eval.eval nestingLimit e).run w.machine with ⟨halt | value, machine⟩ <;>
      rw [hrun] at hevaluate
    · rw [run_bind_error hevaluate]
      rfl
    · rw [run_bind_ok hevaluate]
      rfl

/-- A call, which starts with a name too, is evaluated as an expression, and a declaration of a call
as a declaration. -/
theorem line_goes_to_accepting_reading_call :
    isDeclaration "f(x)" = .ok false ∧ isDeclaration "y = f(x)" = .ok true ∧
    ∀ w, (Work.addLine "y = f(x)").run w =
      (Work.evaluate w.machine (Eval.declareAll nestingLimit
        [⟨"y", .call "f" [.variable "x"]⟩])).run (w.noting "y = f(x)") := by
  have hcall : parseExpression nestingLimit "f(x)" = .ok (.call "f" [.variable "x"]) :=
    parseExpression_source (e := .call "f" [.variable "x"]) (by decide) (by decide)
  have hdeclaration : parseModule nestingLimit promptName "y = f(x)" =
      .ok ⟨⟨promptName, [⟨"y", .call "f" [.variable "x"]⟩]⟩, []⟩ :=
    parseModule_source (m := ⟨promptName, [⟨"y", .call "f" [.variable "x"]⟩]⟩) (by decide)
      (by decide)
  obtain ⟨hdeclares, -, -, hadd, -⟩ := line_goes_to_accepting_reading "y = f(x)"
  exact ⟨(line_goes_to_accepting_reading "f(x)").2.1 _ _ hcall,
    hdeclares _ _ _ hdeclaration (List.cons_ne_nil _ _),
    hadd _ hdeclaration (List.cons_ne_nil _ _)⟩

end QLanguage
