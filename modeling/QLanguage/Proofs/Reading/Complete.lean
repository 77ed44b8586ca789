import QLanguage.Proofs.Reading.Sound

/-!
# What derives from the grammar is read

A reading is `Complete` for a rule when it reads every derivation of that rule and stops right
behind it, whatever follows. For expressions what follows matters: a name takes a parenthesis behind
it as its arguments, and a function takes a semicolon behind it as one more clause. No rule of the
grammar puts either of them behind an expression, so one token of look-ahead is always enough.
-/

namespace QLanguage.Reading

open Grammar

variable {α : Type}

/-- The next lexeme, if there is one, is a token and none of some marks. -/
def NotNext (marks : List Punct) (rest : List Lexed) : Prop :=
  ∀ l ∈ rest.head?, ∃ t : Token, l = .token t ∧ ∀ p ∈ marks, t.kind ≠ .punct p

/-- What may follow an expression: anything but a parenthesis or a semicolon. -/
def AfterExpression : List Lexed → Prop := NotNext [.openParen, .semicolon]

/-- Every derivation of a rule is read, up to what follows it. -/
def Complete (Follow : List Lexed → Prop) (rule : List Lexeme → α → Prop) (reading : Reading α) :
    Prop :=
  ∀ ⦃ts : List Token⦄ ⦃a : α⦄ (rest : List Lexed) (span : Span) (length : Nat),
    rule (ts.map Token.lexeme) a → Follow rest →
      ∃ span', reading.run ⟨ts.map .token ++ rest, span, length⟩ = (.ok a, ⟨rest, span', length⟩)

/-! ## What comes next -/

/-- At the end of the source, no mark comes next. -/
theorem notNext_nil (marks : List Punct) : NotNext marks [] := by
  intro l hl
  cases hl

/-- Before a token of another kind, no mark comes next. -/
theorem notNext_cons {marks : List Punct} {t : Token} (h : ∀ p ∈ marks, t.kind ≠ .punct p)
    (rest : List Lexed) : NotNext marks (.token t :: rest) := by
  intro l hl
  cases hl
  exact ⟨t, rfl, h⟩

/-- Before another mark, none of the marks comes next. -/
theorem notNext_punct {marks : List Punct} {t : Token} {q : Punct} (ht : t.lexeme = .punct q)
    (hq : q ∉ marks) (rest : List Lexed) : NotNext marks (.token t :: rest) := by
  apply notNext_cons
  rintro p hp hkind
  rw [Token.kind, ht] at hkind
  cases hkind
  exact hq hp

/-- Where a mark does not come next, it is not accepted. -/
theorem run_accept_notNext {marks : List Punct} {rest : List Lexed} (h : NotNext marks rest)
    {p : Punct} (hp : p ∈ marks) (span : Span) (length : Nat) :
    (accept p).run ⟨rest, span, length⟩ = (.ok false, ⟨rest, span, length⟩) := by
  cases rest with
  | nil => exact run_accept_nil p span length
  | cons l rest =>
    obtain ⟨t, rfl, hkind⟩ := h l rfl
    exact run_accept_other (hkind p hp) rest span length

/-- A lexeme that is a mark has the kind of that mark. -/
theorem kind_of_lexeme {t : Token} {p : Punct} (h : t.lexeme = .punct p) : t.kind = .punct p := by
  rw [Token.kind, h]
  rfl

/-! ## Rows -/

section Rows

variable {mark : Punct} {item : Reading α} {IsItem : List Lexeme → α → Prop}
  {Follow : List Lexed → Prop}

/-- What may follow an item may follow it inside a row too. -/
theorem follow_tail (hmark : ∀ (t : Token) rest, t.lexeme = .punct mark → Follow (.token t :: rest))
    {ts : List Token} {as : List α} {rest : List Lexed}
    (htail : IsTail mark IsItem (ts.map Token.lexeme) as) (hrest : Follow rest) :
    Follow (ts.map .token ++ rest) := by
  rcases htail.eq_nil_or_mark with hnil | ⟨ls', hcons⟩
  · rw [List.map_eq_nil_iff] at hnil
    subst hnil
    exact hrest
  · obtain ⟨t, ts', rfl, hlexeme, -⟩ := List.map_eq_cons_iff.mp hcons
    exact hmark t _ hlexeme

/-- There are no more items behind marks than lexemes left to read, so those are fuel enough. -/
theorem length_le_left {ts : List Token} {as : List α}
    (htail : IsTail mark IsItem (ts.map Token.lexeme) as) (rest : List Lexed) :
    as.length ≤ (ts.map Lexed.token ++ rest).length := by
  have hle := htail.length_le
  rw [List.length_map] at hle
  rw [List.length_append, List.length_map]
  omega

/-- Items behind marks are all read when one item is. -/
theorem complete_itemsAfter (hitem : Complete Follow IsItem item)
    (hmark : ∀ (t : Token) rest, t.lexeme = .punct mark → Follow (.token t :: rest))
    (fuel : Nat) {ts : List Token} {as : List α} {rest : List Lexed} (span : Span) (length : Nat)
    (htail : IsTail mark IsItem (ts.map Token.lexeme) as) (hfuel : as.length ≤ fuel)
    (hrest : Follow rest) (hnext : NotNext [mark] rest) :
    ∃ span', (itemsAfter mark item fuel).run ⟨ts.map .token ++ rest, span, length⟩ =
      (.ok as, ⟨rest, span', length⟩) := by
  -- The induction is on the derivation; the fuel goes down by one with each item.
  generalize hls : ts.map Token.lexeme = ls at htail
  induction htail generalizing ts span fuel with
  | nil =>
    rw [List.map_eq_nil_iff] at hls
    subst hls
    refine ⟨span, ?_⟩
    cases fuel with
    | zero => rfl
    | succ fuel =>
      unfold itemsAfter
      rw [List.map_nil, List.nil_append,
        Step.run_bind_ok (run_accept_notNext hnext (List.mem_singleton_self mark) span length)]
      rfl
  | cons first more ih =>
    obtain ⟨t, ts', rfl, hlexeme, hls'⟩ := List.map_eq_cons_iff.mp hls
    obtain ⟨ts₁, ts₂, rfl, rfl, rfl⟩ := List.map_eq_append_iff.mp hls'
    cases fuel with
    | zero => cases hfuel
    | succ fuel =>
      obtain ⟨span₁, hfirst⟩ := hitem _ t.span length first (follow_tail hmark more hrest)
      obtain ⟨span₂, hmore⟩ := ih fuel span₁ (Nat.le_of_succ_le_succ hfuel) rfl
      refine ⟨span₂, ?_⟩
      unfold itemsAfter
      rw [List.map_cons, List.cons_append,
        Step.run_bind_ok (run_accept_token (kind_of_lexeme hlexeme) _ span length), if_pos rfl,
        List.map_append, List.append_assoc, Step.run_bind_ok hfirst, Step.run_bind_ok hmore]
      rfl

/-- A row is all read when one item is. -/
theorem complete_row (hitem : Complete Follow IsItem item)
    (hmark : ∀ (t : Token) rest, t.lexeme = .punct mark → Follow (.token t :: rest))
    {ts : List Token} {as : List α} {rest : List Lexed} (span : Span) (length : Nat)
    (hrow : IsRow mark IsItem (ts.map Token.lexeme) as) (hrest : Follow rest)
    (hnext : NotNext [mark] rest) :
    ∃ span', (row mark item).run ⟨ts.map .token ++ rest, span, length⟩ =
      (.ok as, ⟨rest, span', length⟩) := by
  generalize hls : ts.map Token.lexeme = ls at hrow
  obtain ⟨first, more⟩ := hrow
  obtain ⟨ts₁, ts₂, rfl, rfl, rfl⟩ := List.map_eq_append_iff.mp hls
  obtain ⟨span₁, hfirst⟩ := hitem _ span length first (follow_tail hmark more hrest)
  obtain ⟨span₂, hmore⟩ :=
    complete_itemsAfter hitem hmark _ span₁ length more (length_le_left more rest) hrest hnext
  refine ⟨span₂, ?_⟩
  unfold row
  rw [List.map_append, List.append_assoc, Step.run_bind_ok hfirst,
    Step.run_bind_ok (Step.run_get _), Step.run_bind_ok hmore]
  rfl

/-- What stands between parentheses is all read when one item is. -/
theorem complete_parenthesised (hitem : Complete Follow IsItem item)
    (hmark : ∀ (t : Token) rest, t.lexeme = .punct .comma → Follow (.token t :: rest))
    (hclose : ∀ (t : Token) rest, t.lexeme = .punct .closeParen → Follow (.token t :: rest))
    (hfirst : ∀ ls a, IsItem ls a → ∃ l ls', ls = l :: ls' ∧ l.kind ≠ .punct .closeParen) :
    Complete (fun _ => True) (fun ls as => IsParenthesised IsItem (.punct .openParen :: ls) as)
      (parenthesised item) := by
  intro ts as rest span length hrule _
  obtain ⟨ls, hls, hinside⟩ := isParenthesised_iff.mp hrule
  rw [List.cons.injEq] at hls
  obtain ⟨ts₁, ts₂, rfl, rfl, hlast⟩ := List.map_eq_append_iff.mp hls.2
  obtain ⟨t, rfl, hlexeme⟩ := List.map_eq_singleton_iff.mp hlast
  have hkind := kind_of_lexeme hlexeme
  refine ⟨t.span, ?_⟩
  unfold parenthesised
  rcases hinside with ⟨hnil, rfl⟩ | hrow
  · rw [List.map_eq_nil_iff] at hnil
    subst hnil
    rw [List.nil_append, List.map_singleton, List.singleton_append,
      Step.run_bind_ok (run_accept_token hkind rest span length)]
    rfl
  · -- The first item tells the row from an empty list, as it does not start with the mark.
    have hopen : NotNext [.closeParen] (ts₁.map .token ++ (.token t :: rest)) := by
      generalize hls : ts₁.map Token.lexeme = ls at hrow
      obtain ⟨first, more⟩ := hrow
      obtain ⟨l, ls', rfl, hl⟩ := hfirst _ _ first
      obtain ⟨t', ts', rfl, rfl, -⟩ := List.map_eq_cons_iff.mp hls
      apply notNext_cons
      rintro p hp
      rw [List.mem_singleton.mp hp]
      exact hl
    obtain ⟨span₁, hitems⟩ := complete_row hitem hmark span length hrow
      (hclose t rest hlexeme) (notNext_punct hlexeme (by decide) rest)
    rw [List.map_append, List.append_assoc, List.map_singleton, List.singleton_append,
      Step.run_bind_ok (run_accept_notNext hopen (List.mem_singleton_self _) span length)]
    rw [if_neg (by decide), Step.run_bind_ok hitems,
      Step.run_bind_ok (run_expect_token hkind rest span₁ length)]
    rfl

end Rows

/-! ## Expressions -/

/-- Patterns are all read, whatever follows. -/
theorem complete_pattern : Complete (fun _ => True) IsPattern pattern := by
  intro ts a rest span length hrule _
  generalize hls : ts.map Token.lexeme = ls at hrule
  obtain ⟨name⟩ := hrule
  obtain ⟨t, rfl, hlexeme⟩ := List.map_eq_singleton_iff.mp hls
  refine ⟨t.span, ?_⟩
  unfold pattern
  rw [List.map_singleton, List.singleton_append, Step.run_bind_ok (run_next_token _ _ _ _), hlexeme]
  rfl

/-- A pattern does not start with a closing parenthesis. -/
theorem isPattern_first (ls : List Lexeme) (a : Pattern) (h : IsPattern ls a) :
    ∃ l ls', ls = l :: ls' ∧ l.kind ≠ .punct .closeParen := by
  obtain ⟨name⟩ := h
  exact ⟨.identifier name, [], rfl, by simp [Lexeme.kind]⟩

/-- An expression does not start with a closing parenthesis. -/
theorem isExpressionWithin_first (depth : Nat) (ls : List Lexeme) (e : Expr)
    (h : IsExpressionWithin depth ls e) :
    ∃ l ls', ls = l :: ls' ∧ l.kind ≠ .punct .closeParen := by
  obtain ⟨l, ls', rfl, hstarts⟩ := h.1.exists_first
  refine ⟨l, ls', rfl, ?_⟩
  cases l with
  | punct p =>
    cases p with
    | closeParen => cases hstarts
    | _ => simp [Lexeme.kind]
  | other label text => cases hstarts
  | _ => simp [Lexeme.kind]

section Expressions

variable {expression : Reading Expr} {depth : Nat}

/-- Clauses are all read, whatever follows, when their bodies are. -/
theorem complete_clause
    (hexpression : Complete AfterExpression (IsExpressionWithin depth) expression) :
    Complete (fun _ => True) (fun ls c => IsClauseWithin depth (.punct .openParen :: ls) c)
      (clause expression) := by
  rintro ts ⟨patterns, body⟩ rest span length hrule -
  obtain ⟨ls, ls', hls, hparameters, hinside⟩ := isClauseWithin_iff.mp hrule
  obtain ⟨ls₁, rfl, -⟩ := isParenthesised_iff.mp hparameters
  rw [List.cons_append, List.cons.injEq] at hls
  obtain ⟨ts₁, ts₂, rfl, hls₁, hls₂⟩ := List.map_eq_append_iff.mp hls.2
  obtain ⟨t, ts₃, rfl, hopen, hls₃⟩ := List.map_eq_cons_iff.mp hls₂
  obtain ⟨ts₄, ts₅, rfl, rfl, hls₅⟩ := List.map_eq_append_iff.mp hls₃
  obtain ⟨t', rfl, hclose⟩ := List.map_eq_singleton_iff.mp hls₅
  rw [← hls₁] at hparameters
  obtain ⟨span₁, hpatterns⟩ := complete_parenthesised complete_pattern
    (fun _ _ _ => trivial) (fun _ _ _ => trivial) isPattern_first
    (.token t :: (ts₄.map .token ++ (.token t' :: rest))) span length hparameters trivial
  obtain ⟨span₂, hbody⟩ := hexpression _ t.span length hinside
    (notNext_punct hclose (by decide) rest)
  refine ⟨t'.span, ?_⟩
  unfold clause
  simp only [List.map_append, List.map_cons, List.append_assoc, List.cons_append, List.map_nil,
    List.nil_append]
  rw [Step.run_bind_ok hpatterns,
    Step.run_bind_ok (run_expect_token (kind_of_lexeme hopen) _ span₁ length),
    Step.run_bind_ok hbody,
    Step.run_bind_ok (run_expect_token (kind_of_lexeme hclose) rest span₂ length)]
  rfl

/-- Clauses with their opening parenthesis in front are all read when their bodies are. -/
theorem complete_openClause
    (hexpression : Complete AfterExpression (IsExpressionWithin depth) expression) :
    Complete (fun _ => True) (IsClauseWithin depth) (do
      let _ ← expect (.punct .openParen)
      clause expression) := by
  intro ts c rest span length hrule _
  obtain ⟨ls, hls⟩ := hrule.1.exists_openParen
  obtain ⟨t, ts', rfl, hlexeme, rfl⟩ := List.map_eq_cons_iff.mp hls
  rw [List.map_cons, hlexeme] at hrule
  obtain ⟨span', hclause⟩ := complete_clause hexpression rest t.span length hrule trivial
  refine ⟨span', ?_⟩
  rw [List.map_cons, List.cons_append,
    Step.run_bind_ok (run_expect_token (kind_of_lexeme hlexeme) _ span length), hclause]

/-- Functions are all read, up to anything but a semicolon, when their bodies are. -/
theorem complete_function
    (hexpression : Complete AfterExpression (IsExpressionWithin depth) expression) :
    Complete (NotNext [.semicolon])
      (fun ls e => IsExpressionWithin (depth + 1) (.punct .openParen :: ls) e)
      (function expression) := by
  intro ts e rest span length hrule hrest
  obtain ⟨first, others, rfl⟩ := hrule.1.eq_function
  rw [isExpressionWithin_function_iff] at hrule
  generalize hls : Lexeme.punct .openParen :: ts.map Token.lexeme = ls at hrule
  obtain ⟨hfirst, hothers⟩ := hrule
  -- The first clause has the parenthesis that was taken before, the others have their own.
  obtain ⟨ls₁, rfl⟩ := hfirst.1.exists_openParen
  rw [List.cons_append, List.cons.injEq] at hls
  obtain ⟨ts₁, ts₂, rfl, rfl, rfl⟩ := List.map_eq_append_iff.mp hls.2
  obtain ⟨span₁, hclause⟩ := complete_clause hexpression (ts₂.map .token ++ rest) span length
    hfirst trivial
  obtain ⟨span₂, hclauses⟩ := complete_itemsAfter (complete_openClause hexpression)
    (fun _ _ _ => trivial) _ span₁ length hothers (length_le_left hothers rest) trivial hrest
  refine ⟨span₂, ?_⟩
  unfold function
  rw [List.map_append, List.append_assoc, Step.run_bind_ok hclause]
  dsimp only
  rw [Step.run_bind_ok (Step.run_get _), Step.run_bind_ok hclauses]
  rfl

end Expressions

section Levels

variable {depth : Nat} (hdepth : Complete AfterExpression (IsExpressionWithin depth)
  (Reading.expression depth))

include hdepth

/-- A call is read with one level more than its arguments, whatever follows it. -/
theorem complete_call {ts : List Token} {name : String} {args : List Expr} (rest : List Lexed)
    (span : Span) (length : Nat)
    (hrule : IsExpressionWithin (depth + 1) (ts.map Token.lexeme) (.call name args)) :
    ∃ span', (Reading.expression (depth + 1)).run ⟨ts.map .token ++ rest, span, length⟩ =
      (.ok (.call name args), ⟨rest, span', length⟩) := by
  obtain ⟨ls, hls, harguments⟩ := isExpressionWithin_call_iff.mp hrule
  obtain ⟨t, ts', rfl, hname, rfl⟩ := List.map_eq_cons_iff.mp hls
  obtain ⟨ls', hls', -⟩ := isParenthesised_iff.mp harguments
  obtain ⟨t', ts'', rfl, hopen, -⟩ := List.map_eq_cons_iff.mp hls'
  rw [List.map_cons, hopen] at harguments
  obtain ⟨span', hargs⟩ := complete_parenthesised hdepth
    (fun _ rest ht => notNext_punct ht (by decide) rest)
    (fun _ rest ht => notNext_punct ht (by decide) rest) (isExpressionWithin_first depth)
    rest t'.span length harguments trivial
  refine ⟨span', ?_⟩
  unfold Reading.expression
  rw [List.map_cons, List.map_cons, List.cons_append, List.cons_append,
    Step.run_bind_ok (run_next_token _ _ _ _), hname]
  dsimp only
  rw [Step.run_bind_ok (run_accept_token (kind_of_lexeme hopen) _ t.span length), if_pos rfl,
    Step.run_bind_ok hargs]
  rfl

/-- A function is read with one level more than its bodies, if no semicolon follows it. -/
theorem complete_functionExpression {ts : List Token} {first : Clause} {others : List Clause}
    (rest : List Lexed) (span : Span) (length : Nat)
    (hrule : IsExpressionWithin (depth + 1) (ts.map Token.lexeme) (.function first others))
    (hsemicolon : NotNext [.semicolon] rest) :
    ∃ span', (Reading.expression (depth + 1)).run ⟨ts.map .token ++ rest, span, length⟩ =
      (.ok (.function first others), ⟨rest, span', length⟩) := by
  obtain ⟨ls', hls'⟩ := hrule.1.exists_openParen
  obtain ⟨t, ts', rfl, hopen, rfl⟩ := List.map_eq_cons_iff.mp hls'
  rw [List.map_cons, hopen] at hrule
  obtain ⟨span', hfunction⟩ := complete_function hdepth rest t.span length hrule hsemicolon
  refine ⟨span', ?_⟩
  unfold Reading.expression
  rw [List.map_cons, List.cons_append, Step.run_bind_ok (run_next_token _ _ _ _), hopen]
  exact hfunction

end Levels

/-- Expressions that nest within the levels that are left are all read. -/
theorem complete_expression (depth : Nat) :
    Complete AfterExpression (IsExpressionWithin depth) (Reading.expression depth) := by
  induction depth with
  | zero =>
    intro ts e rest span length hrule _
    have hpos := e.nesting_pos
    have hle := hrule.2
    omega
  | succ depth ih =>
    intro ts e rest span length hrule hrest
    cases e with
    | string text =>
      generalize hls : ts.map Token.lexeme = ls at hrule
      obtain ⟨hstring, -⟩ := hrule
      cases hstring
      obtain ⟨t, rfl, hlexeme⟩ := List.map_eq_singleton_iff.mp hls
      refine ⟨t.span, ?_⟩
      unfold Reading.expression
      rw [List.map_singleton, List.singleton_append, Step.run_bind_ok (run_next_token _ _ _ _),
        hlexeme]
      rfl
    | «variable» name =>
      generalize hls : ts.map Token.lexeme = ls at hrule
      obtain ⟨hvariable, -⟩ := hrule
      cases hvariable
      obtain ⟨t, rfl, hlexeme⟩ := List.map_eq_singleton_iff.mp hls
      refine ⟨t.span, ?_⟩
      -- No parenthesis follows, so the name is not taken for a call.
      have hopen : Punct.openParen ∈ [Punct.openParen, .semicolon] := by decide
      unfold Reading.expression
      rw [List.map_singleton, List.singleton_append, Step.run_bind_ok (run_next_token _ _ _ _),
        hlexeme]
      dsimp only
      rw [Step.run_bind_ok (run_accept_notNext hrest hopen t.span length)]
      rfl
    | call name args => exact complete_call ih rest span length hrule
    | function first others =>
      -- No semicolon follows either, so the last clause is the last.
      have hsemicolon : NotNext [.semicolon] rest := by
        intro l hl
        obtain ⟨t', rfl, hkind⟩ := hrest l hl
        exact ⟨t', rfl, fun p hp => hkind p (List.mem_cons_of_mem _ hp)⟩
      exact complete_functionExpression ih rest span length hrule hsemicolon

end QLanguage.Reading
