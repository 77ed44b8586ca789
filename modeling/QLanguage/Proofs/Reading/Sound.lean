import QLanguage.Proofs.Grammar
import QLanguage.Proofs.Reading.Cursor
import QLanguage.Reading.Module

/-!
# What is read derives from the grammar

A reading is `Sound` for a rule when every result that it gives derives, by that rule, from the
tokens that it moved over. Rows and parentheses are sound when the reading of their items is, and
the reading of expressions follows by induction on the levels that are left. What is read nests
within those levels.
-/

namespace QLanguage.Reading

open Grammar

variable {α : Type}

/-- Every result of a reading derives from the tokens that it moved over. -/
def Sound (rule : List Lexeme → α → Prop) (reading : Reading α) : Prop :=
  ∀ ⦃c c' : Cursor⦄ ⦃a : α⦄, c.InSource → reading.run c = (.ok a, c') →
    ∃ ts : List Token, c.Moves ts c' ∧ rule (ts.map Token.lexeme) a

/-! ## Marks -/

/-- A mark that was accepted is that lexeme. -/
theorem sound_accept {p : Punct} {c c' : Cursor} (hc : c.InSource)
    (h : (accept p).run c = (.ok true, c')) :
    ∃ t : Token, c.Moves [t] c' ∧ t.lexeme = .punct p := by
  obtain ⟨t, hkind, hmoves⟩ := run_accept_true h
  have hsource := hc.moves hmoves t (List.mem_singleton_self t)
  exact ⟨t, hmoves, (Lexeme.kind_eq_punct_iff hsource p).mp hkind⟩

/-- A mark that was asked for is that lexeme. -/
theorem sound_expect {p : Punct} {c c' : Cursor} {t : Token} (hc : c.InSource)
    (h : (expect (.punct p)).run c = (.ok t, c')) : c.Moves [t] c' ∧ t.lexeme = .punct p := by
  obtain ⟨hkind, hmoves⟩ := run_expect_ok h
  have hsource := hc.moves hmoves t (List.mem_singleton_self t)
  exact ⟨hmoves, (Lexeme.kind_eq_punct_iff hsource p).mp hkind⟩

/-! ## Rows -/

section Rows

variable {mark : Punct} {item : Reading α} {IsItem : List Lexeme → α → Prop}

/-- Items behind marks are read soundly when one item is. -/
theorem sound_itemsAfter (hitem : Sound IsItem item) (fuel : Nat) :
    Sound (IsTail mark IsItem) (itemsAfter mark item fuel) := by
  induction fuel with
  | zero =>
    intro c c' as hc h
    cases h
    exact ⟨[], .refl c, .nil⟩
  | succ fuel ih =>
    intro c c' as hc h
    obtain ⟨accepted, c₁, haccept, h⟩ := Step.run_bind_eq_ok_iff.mp h
    cases accepted with
    | false =>
      cases run_accept_false haccept
      cases h
      exact ⟨[], .refl c, .nil⟩
    | true =>
      -- The mark, one item behind it, and the others behind that.
      obtain ⟨t, hmark, hlexeme⟩ := sound_accept hc haccept
      obtain ⟨first, c₂, hfirst, h⟩ := Step.run_bind_eq_ok_iff.mp h
      obtain ⟨more, c₃, hmore, h⟩ := Step.run_bind_eq_ok_iff.mp h
      cases h
      have hc₁ := hc.leaves hmark.leaves
      obtain ⟨ts, hmoves, hrule⟩ := hitem hc₁ hfirst
      obtain ⟨ts', hmoves', hrule'⟩ := ih (hc₁.leaves hmoves.leaves) hmore
      refine ⟨[t] ++ (ts ++ ts'), hmark.trans (hmoves.trans hmoves'), ?_⟩
      rw [List.map_append, List.map_append, List.map_singleton, hlexeme, List.singleton_append]
      exact .cons hrule hrule'

/-- A row is read soundly when one item is. -/
theorem sound_row (hitem : Sound IsItem item) : Sound (IsRow mark IsItem) (row mark item) := by
  intro c c' as hc h
  obtain ⟨first, c₁, hfirst, h⟩ := Step.run_bind_eq_ok_iff.mp h
  obtain ⟨_, c₂, hget, h⟩ := Step.run_bind_eq_ok_iff.mp h
  cases hget
  obtain ⟨more, c₃, hmore, h⟩ := Step.run_bind_eq_ok_iff.mp h
  cases h
  obtain ⟨ts, hmoves, hrule⟩ := hitem hc hfirst
  obtain ⟨ts', hmoves', hrule'⟩ := sound_itemsAfter hitem _ (hc.leaves hmoves.leaves) hmore
  refine ⟨ts ++ ts', hmoves.trans hmoves', ?_⟩
  rw [List.map_append]
  exact .mk hrule hrule'

/-- What stands between parentheses, the opening one of which was taken before, is read soundly
when one item is. -/
theorem sound_parenthesised (hitem : Sound IsItem item) :
    Sound (fun ls as => IsParenthesised IsItem (.punct .openParen :: ls) as)
      (parenthesised item) := by
  intro c c' as hc h
  obtain ⟨accepted, c₁, haccept, h⟩ := Step.run_bind_eq_ok_iff.mp h
  cases accepted with
  | true =>
    obtain ⟨t, hmoves, hlexeme⟩ := sound_accept hc haccept
    cases h
    refine ⟨[t], hmoves, ?_⟩
    rw [List.map_singleton, hlexeme]
    exact .empty
  | false =>
    cases run_accept_false haccept
    obtain ⟨items, c₂, hitems, h⟩ := Step.run_bind_eq_ok_iff.mp h
    obtain ⟨t, c₃, hexpect, h⟩ := Step.run_bind_eq_ok_iff.mp h
    cases h
    obtain ⟨ts, hmoves, hrule⟩ := sound_row hitem hc hitems
    obtain ⟨hclose, hlexeme⟩ := sound_expect (hc.leaves hmoves.leaves) hexpect
    refine ⟨ts ++ [t], hmoves.trans hclose, ?_⟩
    rw [List.map_append, List.map_singleton, hlexeme]
    exact .items hrule

end Rows

/-! ## Expressions -/

/-- Patterns are read soundly. -/
theorem sound_pattern : Sound IsPattern pattern := by
  intro c c' a hc h
  obtain ⟨t, c₁, hnext, h⟩ := Step.run_bind_eq_ok_iff.mp h
  obtain ⟨lexeme, span⟩ := t
  cases lexeme with
  | identifier name =>
    cases h
    exact ⟨[⟨.identifier name, span⟩], run_next_ok hnext, .bind name⟩
  | _ => cases h

section Expressions

variable {expression : Reading Expr} {depth : Nat}

/-- Clauses, whose opening parenthesis was taken before, are read soundly when their bodies are. -/
theorem sound_clause (hexpression : Sound (IsExpressionWithin depth) expression) :
    Sound (fun ls c => IsClauseWithin depth (.punct .openParen :: ls) c) (clause expression) := by
  intro c c' a hc h
  obtain ⟨patterns, c₁, hpatterns, h⟩ := Step.run_bind_eq_ok_iff.mp h
  obtain ⟨t, c₂, hopen, h⟩ := Step.run_bind_eq_ok_iff.mp h
  obtain ⟨body, c₃, hbody, h⟩ := Step.run_bind_eq_ok_iff.mp h
  obtain ⟨t', c₄, hclose, h⟩ := Step.run_bind_eq_ok_iff.mp h
  cases h
  obtain ⟨ts, hmoves, hparameters⟩ := sound_parenthesised sound_pattern hc hpatterns
  have hc₁ := hc.leaves hmoves.leaves
  obtain ⟨hmoves₁, hlexeme⟩ := sound_expect hc₁ hopen
  have hc₂ := hc₁.leaves hmoves₁.leaves
  obtain ⟨ts', hmoves₂, hinside⟩ := hexpression hc₂ hbody
  have hc₃ := hc₂.leaves hmoves₂.leaves
  obtain ⟨hmoves₃, hlexeme'⟩ := sound_expect hc₃ hclose
  refine ⟨ts ++ ([t] ++ (ts' ++ [t'])),
    hmoves.trans (hmoves₁.trans (hmoves₂.trans hmoves₃)), ?_⟩
  apply isClauseWithin_iff.mpr
  refine ⟨.punct .openParen :: ts.map Token.lexeme, ts'.map Token.lexeme, ?_, hparameters, hinside⟩
  simp [hlexeme, hlexeme']

/-- Clauses with their opening parenthesis in front are read soundly when their bodies are. -/
theorem sound_openClause (hexpression : Sound (IsExpressionWithin depth) expression) :
    Sound (IsClauseWithin depth) (do
      let _ ← expect (.punct .openParen)
      clause expression) := by
  intro c c' a hc h
  obtain ⟨t, c₁, hopen, h⟩ := Step.run_bind_eq_ok_iff.mp h
  obtain ⟨hmoves, hlexeme⟩ := sound_expect hc hopen
  obtain ⟨ts, hmoves', hclause⟩ := sound_clause hexpression (hc.leaves hmoves.leaves) h
  refine ⟨[t] ++ ts, hmoves.trans hmoves', ?_⟩
  rw [List.map_append, List.map_singleton, hlexeme]
  exact hclause

/-- Functions, whose first parenthesis was taken before, are read soundly when their bodies are. -/
theorem sound_function (hexpression : Sound (IsExpressionWithin depth) expression) :
    Sound (fun ls e => IsExpressionWithin (depth + 1) (.punct .openParen :: ls) e)
      (function expression) := by
  intro c c' a hc h
  obtain ⟨first, c₁, hfirst, h⟩ := Step.run_bind_eq_ok_iff.mp h
  obtain ⟨_, c₂, hget, h⟩ := Step.run_bind_eq_ok_iff.mp h
  cases hget
  obtain ⟨others, c₃, hothers, h⟩ := Step.run_bind_eq_ok_iff.mp h
  cases h
  obtain ⟨ts, hmoves, hclause⟩ := sound_clause hexpression hc hfirst
  -- A clause behind a semicolon has its own opening parenthesis in front.
  obtain ⟨ts', hmoves', htail⟩ :=
    sound_itemsAfter (sound_openClause hexpression) _ (hc.leaves hmoves.leaves) hothers
  refine ⟨ts ++ ts', hmoves.trans hmoves', ?_⟩
  apply isExpressionWithin_function_iff.mpr
  rw [List.map_append, ← List.cons_append]
  exact .mk hclause htail

end Expressions

/-- Expressions are read soundly, and within the levels that are left. -/
theorem sound_expression (depth : Nat) :
    Sound (IsExpressionWithin depth) (Reading.expression depth) := by
  induction depth with
  | zero =>
    intro c c' e hc h
    cases h
  | succ depth ih =>
    intro c c' e hc h
    obtain ⟨t, c₁, hnext, h⟩ := Step.run_bind_eq_ok_iff.mp h
    have hmoves := run_next_ok hnext
    have hc₁ := hc.leaves hmoves.leaves
    obtain ⟨lexeme, span⟩ := t
    cases lexeme with
    | string text =>
      cases h
      exact ⟨_, hmoves, .string depth text⟩
    | identifier name =>
      obtain ⟨accepted, c₂, haccept, h⟩ := Step.run_bind_eq_ok_iff.mp h
      cases accepted with
      | true =>
        obtain ⟨t', hmoves', hlexeme⟩ := sound_accept hc₁ haccept
        obtain ⟨args, c₃, hargs, h⟩ := Step.run_bind_eq_ok_iff.mp h
        cases h
        obtain ⟨ts, hmoves'', harguments⟩ :=
          sound_parenthesised ih (hc₁.leaves hmoves'.leaves) hargs
        refine ⟨_, hmoves.trans (hmoves'.trans hmoves''), ?_⟩
        rw [isExpressionWithin_call_iff]
        refine ⟨.punct .openParen :: ts.map Token.lexeme, ?_, harguments⟩
        simp [hlexeme]
      | false =>
        -- Without a parenthesis behind it, the name is a variable and the cursor stays behind it.
        cases run_accept_false haccept
        cases h
        exact ⟨_, hmoves, .variable depth name⟩
    | punct p =>
      cases p with
      | openParen =>
        obtain ⟨ts, hmoves', hfunction⟩ := sound_function ih hc₁ h
        exact ⟨_, hmoves.trans hmoves', hfunction⟩
      | _ => cases h
    | _ => cases h

end QLanguage.Reading
