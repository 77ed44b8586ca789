import QLanguage.Proofs.Reading.Complete
import QLanguage.Proofs.Reading.Levels
import QLanguage.Proofs.Reading.Lookahead

/-!
# Faults are found at the first token that cannot be continued

Lexemes are viable for a rule when more of them could follow so that all together derive something.
A reading that stops with a diagnostic stops behind viable tokens: at a token, which it has taken,
or at the end of the source (`Breaks`). That the token it stops at is not viable any more comes from
the other side: by `Local` the reading would stop there whatever followed, and by completeness it
would not stop if anything could follow.
-/

namespace QLanguage

open Grammar

/-- Some lexemes can be continued so that they derive something. -/
def Viable {α : Type} (rule : List Lexeme → α → Prop) (ls : List Lexeme) : Prop :=
  ∃ more a, rule (ls ++ more) a

section Viable

variable {α : Type} {rule : List Lexeme → α → Prop} {ls ls' : List Lexeme}

/-- What derives something is viable. -/
theorem viable_of_rule {a : α} (h : rule ls a) : Viable rule ls :=
  ⟨[], a, by rwa [List.append_nil]⟩

/-- The front of what is viable is viable. -/
theorem Viable.of_append (h : Viable rule (ls ++ ls')) : Viable rule ls := by
  obtain ⟨more, a, ha⟩ := h
  exact ⟨ls' ++ more, a, by rwa [← List.append_assoc]⟩

end Viable

/-! ## Continuing what has been read -/

section Continuing

variable {α : Type} {mark : Punct} {IsItem : List Lexeme → α → Prop} {ls ls' : List Lexeme} {a : α}

/-- Behind a mark, what is viable as an item is viable in a row of items behind marks. -/
theorem Viable.tail_item (h : Viable IsItem ls) :
    Viable (IsTail mark IsItem) (.punct mark :: ls) := by
  obtain ⟨more, a, ha⟩ := h
  refine ⟨more, [a], ?_⟩
  have htail : IsTail mark IsItem (.punct mark :: (ls ++ more ++ [])) [a] := .cons ha .nil
  rwa [List.append_nil] at htail

/-- Behind a mark and an item, what is viable as more of them stays viable. -/
theorem Viable.tail_cons (h : Viable (IsTail mark IsItem) ls') (ha : IsItem ls a) :
    Viable (IsTail mark IsItem) (.punct mark :: (ls ++ ls')) := by
  obtain ⟨more, as, hmore⟩ := h
  refine ⟨more, a :: as, ?_⟩
  rw [List.cons_append, List.append_assoc]
  exact .cons ha hmore

/-- What is viable as an item is viable as a row. -/
theorem Viable.row_item (h : Viable IsItem ls) : Viable (IsRow mark IsItem) ls := by
  obtain ⟨more, a, ha⟩ := h
  refine ⟨more, [a], ?_⟩
  have hrow : IsRow mark IsItem (ls ++ more ++ []) [a] := .mk ha .nil
  rwa [List.append_nil] at hrow

/-- Behind an item, what is viable as items behind marks is viable in a row. -/
theorem Viable.row_cons (h : Viable (IsTail mark IsItem) ls') (ha : IsItem ls a) :
    Viable (IsRow mark IsItem) (ls ++ ls') := by
  obtain ⟨more, as, hmore⟩ := h
  refine ⟨more, a :: as, ?_⟩
  rw [List.append_assoc]
  exact .mk ha hmore

/-- Behind an opening parenthesis, what is viable as a row stays viable. -/
theorem Viable.parenthesised_row (h : Viable (IsRow .comma IsItem) ls) :
    Viable (IsParenthesised IsItem) (.punct .openParen :: ls) := by
  obtain ⟨more, as, hrow⟩ := h
  refine ⟨more ++ [.punct .closeParen], as, ?_⟩
  rw [List.cons_append, ← List.append_assoc]
  exact .items hrow

/-- A string is an expression, for want of another one. -/
theorem isExpression_string : IsExpression [.string ""] (.string "") := .string ""

/-- What is viable as the parameters of a clause is viable as a clause. -/
theorem Viable.clause_parameters (h : Viable (IsParenthesised IsPattern) ls) :
    Viable IsClause ls := by
  obtain ⟨more, patterns, hparameters⟩ := h
  refine ⟨more ++ .punct .openBrace :: ([.string ""] ++ [.punct .closeBrace]),
    .mk patterns (.string ""), ?_⟩
  rw [← List.append_assoc]
  exact .mk hparameters isExpression_string

/-- Behind the parameters and a brace, what is viable as an expression is viable as a clause. -/
theorem Viable.clause_body {patterns : List Pattern} (h : Viable IsExpression ls')
    (hparameters : IsParenthesised IsPattern ls patterns) :
    Viable IsClause (ls ++ .punct .openBrace :: ls') := by
  obtain ⟨more, body, hbody⟩ := h
  refine ⟨more ++ [.punct .closeBrace], .mk patterns body, ?_⟩
  have hclause := IsClause.mk hparameters hbody
  rwa [List.append_assoc, List.cons_append, ← List.append_assoc ls']

/-- What is viable as a row of clauses is viable as an expression. -/
theorem Viable.expression_clauses (h : Viable (IsRow .semicolon IsClause) ls) :
    Viable IsExpression ls := by
  obtain ⟨more, clauses, hrow⟩ := h
  cases clauses with
  | nil =>
    -- A row has an item at least.
    generalize ls ++ more = all at hrow
    cases hrow
  | cons first others => exact ⟨more, .function first others, .function hrow⟩

/-- Behind a name, what is viable as arguments is viable as an expression. -/
theorem Viable.expression_call (h : Viable (IsParenthesised IsExpression) ls) (name : String) :
    Viable IsExpression (.identifier name :: ls) := by
  obtain ⟨more, args, harguments⟩ := h
  exact ⟨more, .call name args, .call name harguments⟩

end Continuing

namespace Reading

variable {α β : Type}

/-- A reading with a diagnostic has moved over some tokens and stops behind them: at one more token,
which it has taken too, or at the end of the source. -/
def StopsBehind (c : Cursor) (ts : List Token) (d : Diagnostic) (c' : Cursor) : Prop :=
  (∃ t, d.found? = some t ∧ c.Moves (ts ++ [t]) c') ∨
    d = .endOfInput (some (c.length : Int)) ∧ c.Moves ts c' ∧ c'.rest = []

/-- A reading that starts behind some tokens stops behind those as well. -/
theorem StopsBehind.after {c mid c' : Cursor} {ts ts' : List Token} {d : Diagnostic}
    (h : StopsBehind mid ts' d c') (hmoves : c.Moves ts mid) : StopsBehind c (ts ++ ts') d c' := by
  rcases h with ⟨t, hfound, hmoves'⟩ | ⟨hd, hmoves', hrest⟩
  · refine .inl ⟨t, hfound, ?_⟩
    rw [List.append_assoc]
    exact hmoves.trans hmoves'
  · rw [hmoves.2] at hd
    exact .inr ⟨hd, hmoves.trans hmoves', hrest⟩

/-- Whenever a reading ends with a diagnostic, it stops behind tokens of which `V` is true. -/
def Breaks (V : List Lexeme → Prop) (reading : Reading α) : Prop :=
  ∀ ⦃c c' : Cursor⦄ ⦃d : Diagnostic⦄, c.InSource → reading.run c = (.error (.diagnostic d), c') →
    ∃ ts : List Token, V (ts.map Token.lexeme) ∧ StopsBehind c ts d c'

/-! ## Readings in a row -/

namespace Breaks

variable {V V' : List Lexeme → Prop}

/-- A reading of its result alone does not stop. -/
theorem pure (a : α) : Breaks V (Pure.pure a : Reading α) := fun _ _ _ _ h => by cases h

/-- Tokens of which less is asked may be broken off behind too. -/
theorem mono {reading : Reading α} (h : Breaks V reading) (hV : ∀ ls, V ls → V' ls) :
    Breaks V' reading := by
  intro c c' d hc hrun
  obtain ⟨ts, hts, hstops⟩ := h hc hrun
  exact ⟨ts, hV _ hts, hstops⟩

/-- The second of two readings stops behind what the first one has read. -/
theorem bind {rule : List Lexeme → α → Prop} {reading : Reading α} {next : α → Reading β}
    (hsound : Sound rule reading) (hreading : Breaks V reading)
    (hnext : ∀ a ls, rule ls a → Breaks (fun ls' => V (ls ++ ls')) (next a)) :
    Breaks V (reading >>= next) := by
  intro c c' d hc hrun
  rcases hfirst : reading.run c with ⟨stop | a, mid⟩
  · rw [Step.run_bind_error hfirst] at hrun
    cases hrun
    exact hreading hc hfirst
  · rw [Step.run_bind_ok hfirst] at hrun
    obtain ⟨ts, hmoves, hrule⟩ := hsound hc hfirst
    obtain ⟨ts', hV, hstops⟩ := hnext a _ hrule (hc.leaves hmoves.leaves) hrun
    refine ⟨ts ++ ts', ?_, hstops.after hmoves⟩
    rwa [List.map_append]

/-- A reading of the next token stops at the end of the source, or behind that token, or at it. -/
theorem afterNext {next' : Token → Reading α} (hnil : V [])
    (h : ∀ t, Breaks (fun ls => V (t.lexeme :: ls)) (next' t) ∨
      ∃ d, next' t = throw (.diagnostic d) ∧ d.found? = some t) :
    Breaks V (next >>= next') := by
  intro c c' d hc hrun
  obtain ⟨_ | ⟨t | ⟨digits, place⟩, rest⟩, span, length⟩ := c
  · rw [Step.run_bind_error (run_next_nil span length)] at hrun
    cases hrun
    exact ⟨[], hnil, .inr ⟨rfl, .refl _, rfl⟩⟩
  · rw [Step.run_bind_ok (run_next_token t rest span length)] at hrun
    have hmoves := run_next_ok (run_next_token t rest span length)
    rcases h t with hbreaks | ⟨d', hthrow, hfound⟩
    · obtain ⟨ts, hV, hstops⟩ := hbreaks (hc.leaves hmoves.leaves) hrun
      exact ⟨t :: ts, hV, hstops.after hmoves⟩
    · rw [hthrow] at hrun
      cases hrun
      exact ⟨[], hnil, .inl ⟨t, hfound, hmoves⟩⟩
  · cases hrun

end Breaks

/-! ## Tokens and marks -/

/-- What is read soundly for a rule is read soundly for a weaker one. -/
theorem Sound.mono {rule rule' : List Lexeme → α → Prop} {reading : Reading α}
    (h : Sound rule reading) (hrule : ∀ ls a, rule ls a → rule' ls a) : Sound rule' reading := by
  intro c c' a hc hrun
  obtain ⟨ts, hmoves, ha⟩ := h hc hrun
  exact ⟨ts, hmoves, hrule _ a ha⟩

/-- A mark that is accepted or not is read soundly. -/
theorem sound_accepted (p : Punct) :
    Sound (fun ls accepted => ls = if accepted then [.punct p] else []) (accept p) := by
  intro c c' accepted hc h
  cases accepted with
  | true =>
    obtain ⟨t, hmoves, hlexeme⟩ := sound_accept hc h
    exact ⟨[t], hmoves, by simp [hlexeme]⟩
  | false =>
    cases run_accept_false h
    exact ⟨[], .refl c, rfl⟩

/-- A mark that is asked for is read soundly. -/
theorem sound_expected (p : Punct) : Sound (fun ls _ => ls = [.punct p]) (expect (.punct p)) := by
  intro c c' t hc h
  obtain ⟨hmoves, hlexeme⟩ := sound_expect hc h
  exact ⟨[t], hmoves, by simp [hlexeme]⟩

/-- Looking at the cursor reads nothing. -/
theorem sound_get : Sound (fun ls _ => ls = []) (get : Reading Cursor) := by
  intro c c' a hc h
  cases h
  exact ⟨[], .refl c, rfl⟩

section Marks

variable {V : List Lexeme → Prop}

/-- Looking at the cursor does not stop. -/
theorem breaks_get : Breaks V (get : Reading Cursor) := fun _ _ _ _ h => by cases h

/-- Accepting a mark does not stop with a diagnostic. -/
theorem breaks_accept (p : Punct) : Breaks V (accept p) :=
  fun _ _ _ _ h => absurd h run_accept_ne_fault

/-- Asking for a kind stops at the first token or not at all. -/
theorem breaks_expect (kind : Kind) (hnil : V []) : Breaks V (expect kind) := by
  refine Breaks.afterNext hnil fun t => ?_
  split
  · exact .inl (.pure t)
  · exact .inr ⟨_, rfl, rfl⟩

end Marks

/-! ## Rows -/

section Rows

variable {mark : Punct} {item : Reading α} {IsItem : List Lexeme → α → Prop}

/-- Items behind marks stop behind viable tokens when one item does. -/
theorem breaks_itemsAfter (hsound : Sound IsItem item) (hitem : Breaks (Viable IsItem) item)
    (fuel : Nat) : Breaks (Viable (IsTail mark IsItem)) (itemsAfter mark item fuel) := by
  induction fuel with
  | zero => exact .pure _
  | succ fuel ih =>
    refine Breaks.bind (sound_accepted mark) (breaks_accept mark) fun accepted ls hls => ?_
    cases accepted with
    | false => exact .pure _
    | true =>
      subst hls
      refine Breaks.bind hsound (hitem.mono fun _ h => h.tail_item) fun first ls hfirst => ?_
      refine Breaks.bind (sound_itemsAfter hsound fuel) (ih.mono fun _ h => h.tail_cons hfirst)
        fun _ _ _ => .pure _

/-- A row stops behind viable tokens when one item does. -/
theorem breaks_row (hsound : Sound IsItem item) (hitem : Breaks (Viable IsItem) item) :
    Breaks (Viable (IsRow mark IsItem)) (row mark item) := by
  refine Breaks.bind hsound (hitem.mono fun _ h => h.row_item) fun first ls hfirst => ?_
  refine Breaks.bind sound_get breaks_get fun cursor ls' hls' => ?_
  subst hls'
  refine Breaks.bind (sound_itemsAfter hsound _) ?_ fun _ _ _ => .pure _
  exact (breaks_itemsAfter hsound hitem _).mono fun _ h => h.row_cons hfirst

/-- What stands between parentheses, the opening one of which was taken before, stops behind viable
tokens when one item does. -/
theorem breaks_parenthesised (hsound : Sound IsItem item) (hitem : Breaks (Viable IsItem) item) :
    Breaks (fun ls => Viable (IsParenthesised IsItem) (.punct .openParen :: ls))
      (parenthesised item) := by
  refine Breaks.bind (sound_accepted .closeParen) (breaks_accept _) fun accepted ls hls => ?_
  cases accepted with
  | true => exact .pure _
  | false =>
    subst hls
    refine Breaks.bind (sound_row hsound)
      ((breaks_row hsound hitem).mono fun _ h => h.parenthesised_row) fun items ls hitems => ?_
    -- Behind a row, a closing parenthesis could follow.
    have hclose : Viable (IsParenthesised IsItem) (.punct .openParen :: ([] ++ (ls ++ []))) := by
      rw [List.append_nil]
      exact (viable_of_rule hitems).parenthesised_row
    exact Breaks.bind (sound_expected _) (breaks_expect _ hclose) fun _ _ _ => .pure _

end Rows

/-! ## Expressions -/

/-- A pattern stops at its only token. -/
theorem breaks_pattern : Breaks (Viable IsPattern) pattern := by
  have hnil : Viable IsPattern [] := ⟨[.identifier ""], .bind "", .bind ""⟩
  refine Breaks.afterNext hnil fun t => ?_
  split
  · exact .inl (.pure _)
  · exact .inr ⟨_, rfl, rfl⟩

section Expressions

variable {expression : Reading Expr} {depth : Nat}

/-- A clause, whose opening parenthesis was taken before, stops behind viable tokens when its body
does. -/
theorem breaks_clause (hsound : Sound (IsExpressionWithin depth) expression)
    (hbody : Breaks (Viable IsExpression) expression) :
    Breaks (fun ls => Viable IsClause (.punct .openParen :: ls)) (clause expression) := by
  refine Breaks.bind (sound_parenthesised sound_pattern)
    ((breaks_parenthesised sound_pattern breaks_pattern).mono fun _ h => h.clause_parameters)
    fun patterns ls hparameters => ?_
  have hbrace : Viable IsClause (.punct .openParen :: (ls ++ [])) := by
    rw [List.append_nil]
    exact (viable_of_rule hparameters).clause_parameters
  refine Breaks.bind (sound_expected _) (breaks_expect _ hbrace) fun brace ls' hls' => ?_
  subst hls'
  refine Breaks.bind hsound (hbody.mono fun _ h => h.clause_body hparameters)
    fun body ls' hinside => ?_
  have hclose := (viable_of_rule hinside.1).clause_body hparameters
  refine Breaks.bind (sound_expected _) (breaks_expect _ ?_) fun _ _ _ => .pure _
  simpa using hclose

/-- A clause with its opening parenthesis in front stops behind viable tokens when its body does. -/
theorem breaks_openClause (hsound : Sound (IsExpressionWithin depth) expression)
    (hbody : Breaks (Viable IsExpression) expression) :
    Breaks (Viable IsClause) (do
      let _ ← expect (.punct .openParen)
      clause expression) := by
  have hnil : Viable IsClause [] :=
    Viable.clause_parameters ⟨[.punct .openParen, .punct .closeParen], [], .empty⟩
  refine Breaks.bind (sound_expected _) (breaks_expect _ hnil) fun mark ls hls => ?_
  subst hls
  exact breaks_clause hsound hbody

/-- A function, whose first parenthesis was taken before, stops behind viable tokens when its bodies
do. -/
theorem breaks_function (hsound : Sound (IsExpressionWithin depth) expression)
    (hbody : Breaks (Viable IsExpression) expression) :
    Breaks (fun ls => Viable IsExpression (.punct .openParen :: ls)) (function expression) := by
  have hclause := breaks_clause hsound hbody
  refine Breaks.bind (sound_clause hsound)
    (hclause.mono fun _ h => h.row_item.expression_clauses) fun first ls hfirst => ?_
  refine Breaks.bind sound_get breaks_get fun cursor ls' hls' => ?_
  subst hls'
  -- The clauses behind semicolons are read within the levels too, which viability forgets.
  have hopen : Sound IsClause (do
      let _ ← expect (.punct .openParen)
      clause expression) := (sound_openClause hsound).mono fun _ _ h => h.1
  refine Breaks.bind (sound_itemsAfter hopen _) ?_ fun _ _ _ => .pure _
  refine (breaks_itemsAfter hopen (breaks_openClause hsound hbody) _).mono fun ls' h => ?_
  exact (h.row_cons hfirst.1).expression_clauses

end Expressions

/-- An expression stops behind tokens that are viable as an expression. -/
theorem breaks_expression (depth : Nat) : Breaks (Viable IsExpression) (expression depth) := by
  induction depth with
  | zero => exact fun _ _ _ _ h => by cases h
  | succ depth ih =>
    have hsound := sound_expression depth
    refine Breaks.afterNext ⟨_, _, isExpression_string⟩ fun t => ?_
    obtain ⟨lexeme, span⟩ := t
    split
    · exact .inl (.pure _)
    · next name hname =>
      dsimp only at hname
      subst hname
      refine .inl (Breaks.bind (sound_accepted _) (breaks_accept _) fun accepted ls hls => ?_)
      cases accepted with
      | false => exact .pure _
      | true =>
        subst hls
        refine Breaks.bind (sound_parenthesised hsound) ?_ fun _ _ _ => .pure _
        have harguments := breaks_parenthesised (hsound.mono fun _ _ h => h.1) ih
        exact harguments.mono fun _ h => h.expression_call name
    · next hopen =>
      dsimp only at hopen
      subst hopen
      exact .inl (breaks_function hsound ih)
    · exact .inr ⟨_, rfl, rfl⟩

/-! ## Nothing else could have followed -/

/-- Tokens of given lexemes, wherever they stand. -/
def tokensOf (ls : List Lexeme) : List Token := ls.map fun l => ⟨l, .origin⟩

/-- The lexemes of tokens that were made of them. -/
theorem map_lexeme_tokensOf (ls : List Lexeme) : (tokensOf ls).map Token.lexeme = ls := by
  rw [tokensOf, List.map_map]
  exact List.map_id ls

/-- A derived expression is read up to the end of the source or up to a name behind it. -/
theorem run_expression_of_derived {depth : Nat} {ls follow : List Lexeme} {e : Expr}
    {ts : List Token} (he : IsExpression ls e) (hdepth : e.nesting ≤ depth)
    (hfollow : follow = [] ∨ ∃ name ls', follow = .identifier name :: ls')
    (hts : ts.map Token.lexeme = ls ++ follow) (span : Span) (length : Nat) :
    ∃ (left : List Token) (span' : Span), left.map Token.lexeme = follow ∧
      (expression depth).run ⟨ts.map .token, span, length⟩ =
        (.ok e, ⟨left.map .token, span', length⟩) := by
  obtain ⟨ts₁, left, rfl, rfl, rfl⟩ := List.map_eq_append_iff.mp hts
  have hafter : AfterExpression (left.map .token) := by
    rcases hfollow with hnil | ⟨name, ls', hcons⟩
    · rw [List.map_eq_nil_iff] at hnil
      subst hnil
      exact notNext_nil _
    · obtain ⟨t, left', rfl, hname, -⟩ := List.map_eq_cons_iff.mp hcons
      refine notNext_cons (fun p _ => ?_) _
      rw [Token.kind, hname]
      simp [Lexeme.kind]
  obtain ⟨span', hrun⟩ := complete_expression depth _ span length ⟨he, hdepth⟩ hafter
  refine ⟨left, span', rfl, ?_⟩
  rw [List.map_append]
  exact hrun

/-- A reading that ended otherwise than for want of levels ends the same with more of them. -/
theorem run_expression_levels {depth depth' : Nat} (h : depth ≤ depth') {c c' : Cursor}
    {result : Except Stop Expr} (hrun : (expression depth).run c = (result, c'))
    (hresult : result ≠ .error .tooDeep) : (expression depth').run c = (result, c') := by
  have hagrees := (agrees_expression h).run_eq (s := c) (by rw [hrun]; exact hresult)
  exact hagrees.trans hrun

/-- Where an expression stops at a token, no expression goes on over that token, or ends before it
with a name behind. -/
theorem not_derived_of_fault {depth : Nat} {ts : List Token} {rest : List Lexed} {span span' : Span}
    {length : Nat} {d : Diagnostic}
    (hrun : (expression depth).run ⟨ts.map .token ++ rest, span, length⟩ =
      (.error (.diagnostic d), ⟨rest, span', length⟩)) (hfound : d.found? ≠ none)
    {ls follow more : List Lexeme} {e : Expr} (he : IsExpression ls e)
    (hfollow : follow = [] ∨ ∃ name ls', follow = .identifier name :: ls') :
    ls ++ follow ≠ ts.map Token.lexeme ++ more := by
  intro heq
  -- With levels enough for the other expression, the reading stops at the token all the same.
  have hdeep : (expression (max depth e.nesting)).run ⟨ts.map .token ++ rest, span, length⟩ =
      (.error (.diagnostic d), ⟨([] : List Token).map .token ++ rest, span', length⟩) :=
    run_expression_levels (Nat.le_max_left depth e.nesting) hrun (by simp)
  have hstop := (local_expression _).settled hdeep hfound ((tokensOf more).map .token)
  have hts : (ts ++ tokensOf more).map Token.lexeme = ls ++ follow := by
    rw [List.map_append, map_lexeme_tokensOf, heq]
  obtain ⟨left, span'', -, hread⟩ :=
    run_expression_of_derived he (Nat.le_max_right depth e.nesting) hfollow hts span length
  rw [List.map_append, hstop] at hread
  cases hread

/-- Where an expression was read up to a token, no expression goes on over that token. -/
theorem not_viable_of_read {depth : Nat} {ts : List Token} {t : Token} {rest : List Lexed}
    {span span' : Span} {length : Nat} {e : Expr}
    (hrun : (expression depth).run ⟨ts.map .token ++ .token t :: rest, span, length⟩ =
      (.ok e, ⟨.token t :: rest, span', length⟩)) :
    ¬Viable IsExpression ((ts ++ [t]).map Token.lexeme) := by
  rintro ⟨more, e', he'⟩
  have hcursor : ts.map Lexed.token ++ .token t :: rest = (ts ++ [t]).map .token ++ rest := by simp
  have hdeep : (expression (max depth e'.nesting)).run
      ⟨(ts ++ [t]).map .token ++ rest, span, length⟩ =
      (.ok e, ⟨[t].map .token ++ rest, span', length⟩) := by
    rw [← hcursor]
    exact run_expression_levels (Nat.le_max_left depth e'.nesting) hrun (by simp)
  have hread := (local_expression _).settled hdeep (List.cons_ne_nil t [])
    ((tokensOf more).map .token)
  have hts : (ts ++ [t] ++ tokensOf more).map Token.lexeme =
      (ts ++ [t]).map Token.lexeme ++ more ++ [] := by
    rw [List.map_append, map_lexeme_tokensOf, List.append_nil]
  obtain ⟨left, span'', hleft, hread'⟩ :=
    run_expression_of_derived he' (Nat.le_max_right depth e'.nesting) (.inl rfl) hts span length
  rw [List.map_eq_nil_iff] at hleft
  subst hleft
  rw [List.map_append, hread] at hread'
  cases hread'

end Reading

end QLanguage
