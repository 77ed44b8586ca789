import QLanguage.Proofs.WellFormed
import QLanguage.Reading.Module

/-!
# The grammar

Which lexemes derive which tree:

    module      ::= declaration*
    declaration ::= name "=" expression
    expression  ::= string | name "(" [expression ("," expression)*] ")" | name | function
    function    ::= clause (";" clause)*
    clause      ::= "(" [pattern ("," pattern)*] ")" "{" expression "}"
    pattern     ::= name

Each rule is a relation between a list of lexemes and a tree. The rules say nothing of looking ahead
or of levels; `IsExpressionWithin` bounds the nesting of a tree from outside, and the lemmas here
move that bound through rows and parentheses, so that a proof by induction on the levels never has
to go into a derivation further than one rule.
-/

namespace QLanguage.Grammar

/-- Items that each stand behind one more mark: `(mark item)*`. -/
inductive IsTail {α : Type} (mark : Punct) (IsItem : List Lexeme → α → Prop) :
    List Lexeme → List α → Prop where
  /-- No item. -/
  | nil : IsTail mark IsItem [] []
  /-- A mark, an item and more of them. -/
  | cons {ls ls' : List Lexeme} {a : α} {as : List α} (first : IsItem ls a)
      (more : IsTail mark IsItem ls' as) :
      IsTail mark IsItem (.punct mark :: (ls ++ ls')) (a :: as)

/-- Items with a mark between any two: `item (mark item)*`. -/
inductive IsRow {α : Type} (mark : Punct) (IsItem : List Lexeme → α → Prop) :
    List Lexeme → List α → Prop where
  /-- An item and those behind marks. -/
  | mk {ls ls' : List Lexeme} {a : α} {as : List α} (first : IsItem ls a)
      (more : IsTail mark IsItem ls' as) : IsRow mark IsItem (ls ++ ls') (a :: as)

/-- Items between parentheses: `"(" [item ("," item)*] ")"`. -/
inductive IsParenthesised {α : Type} (IsItem : List Lexeme → α → Prop) :
    List Lexeme → List α → Prop where
  /-- Nothing between the parentheses. -/
  | empty : IsParenthesised IsItem [.punct .openParen, .punct .closeParen] []
  /-- A row with commas between the parentheses. -/
  | items {ls : List Lexeme} {as : List α} (row : IsRow .comma IsItem ls as) :
      IsParenthesised IsItem (.punct .openParen :: (ls ++ [.punct .closeParen])) as

/-- A pattern is a name. -/
inductive IsPattern : List Lexeme → Pattern → Prop where
  /-- A name binds. -/
  | bind (name : String) : IsPattern [.identifier name] (.bind name)

mutual

/-- The lexemes of an expression. -/
inductive IsExpression : List Lexeme → Expr → Prop where
  /-- A string. -/
  | string (text : String) : IsExpression [.string text] (.string text)
  /-- A name with arguments. -/
  | call (name : String) {ls : List Lexeme} {args : List Expr}
      (arguments : IsParenthesised IsExpression ls args) :
      IsExpression (.identifier name :: ls) (.call name args)
  /-- A name alone. -/
  | variable (name : String) : IsExpression [.identifier name] (.variable name)
  /-- A function is a row of clauses. -/
  | function {ls : List Lexeme} {first : Clause} {others : List Clause}
      (clauses : IsRow .semicolon IsClause ls (first :: others)) :
      IsExpression ls (.function first others)

/-- The lexemes of a clause. -/
inductive IsClause : List Lexeme → Clause → Prop where
  /-- Patterns between parentheses and a body between braces. -/
  | mk {ls ls' : List Lexeme} {patterns : List Pattern} {body : Expr}
      (parameters : IsParenthesised IsPattern ls patterns) (inside : IsExpression ls' body) :
      IsClause (ls ++ .punct .openBrace :: (ls' ++ [.punct .closeBrace])) (.mk patterns body)

end

/-- The lexemes of a declaration. -/
inductive IsDeclaration : List Lexeme → Declaration → Prop where
  /-- A name, an equals sign and an expression. -/
  | mk (name : String) {ls : List Lexeme} {value : Expr} (expression : IsExpression ls value) :
      IsDeclaration (.identifier name :: .punct .equal :: ls) ⟨name, value⟩

/-- The lexemes of the declarations of a module. -/
inductive IsModule : List Lexeme → List Declaration → Prop where
  /-- No declaration. -/
  | nil : IsModule [] []
  /-- A declaration and more of them. -/
  | cons {ls ls' : List Lexeme} {d : Declaration} {ds : List Declaration}
      (first : IsDeclaration ls d) (more : IsModule ls' ds) : IsModule (ls ++ ls') (d :: ds)

/-! ## Rows of items with a property -/

section Rows

variable {α : Type} {mark : Punct} {IsItem : List Lexeme → α → Prop} {Q : α → Prop}
  {ls : List Lexeme} {as : List α}

/-- Each item behind a mark has a property when all of them have it. -/
theorem isTail_and_iff :
    IsTail mark (fun ls a => IsItem ls a ∧ Q a) ls as ↔
      IsTail mark IsItem ls as ∧ ∀ a ∈ as, Q a := by
  constructor
  · intro h
    induction h with
    | nil => exact ⟨.nil, by simp⟩
    | cons first more ih =>
      refine ⟨.cons first.1 ih.1, ?_⟩
      rw [List.forall_mem_cons]
      exact ⟨first.2, ih.2⟩
  · rintro ⟨h, hall⟩
    induction h with
    | nil => exact .nil
    | cons first more ih =>
      rw [List.forall_mem_cons] at hall
      exact .cons ⟨first, hall.1⟩ (ih hall.2)

/-- Each item of a row has a property when all of them have it. -/
theorem isRow_and_iff :
    IsRow mark (fun ls a => IsItem ls a ∧ Q a) ls as ↔ IsRow mark IsItem ls as ∧ ∀ a ∈ as, Q a := by
  constructor
  · rintro ⟨first, more⟩
    rw [isTail_and_iff] at more
    refine ⟨.mk first.1 more.1, ?_⟩
    rw [List.forall_mem_cons]
    exact ⟨first.2, more.2⟩
  · rintro ⟨⟨first, more⟩, hall⟩
    rw [List.forall_mem_cons] at hall
    exact .mk ⟨first, hall.1⟩ (isTail_and_iff.mpr ⟨more, hall.2⟩)

/-- Each item between parentheses has a property when all of them have it. -/
theorem isParenthesised_and_iff :
    IsParenthesised (fun ls a => IsItem ls a ∧ Q a) ls as ↔
      IsParenthesised IsItem ls as ∧ ∀ a ∈ as, Q a := by
  constructor
  · rintro (_ | row)
    · exact ⟨.empty, by simp⟩
    · rw [isRow_and_iff] at row
      exact ⟨.items row.1, row.2⟩
  · rintro ⟨_ | row, hall⟩
    · exact .empty
    · exact .items (isRow_and_iff.mpr ⟨row, hall⟩)

/-- Parentheses open, and close behind nothing or behind a row. -/
theorem isParenthesised_iff :
    IsParenthesised IsItem ls as ↔
      ∃ ls', ls = .punct .openParen :: (ls' ++ [.punct .closeParen]) ∧
        (ls' = [] ∧ as = [] ∨ IsRow .comma IsItem ls' as) := by
  constructor
  · rintro (_ | row)
    · exact ⟨[], rfl, .inl ⟨rfl, rfl⟩⟩
    · exact ⟨_, rfl, .inr row⟩
  · rintro ⟨ls', rfl, ⟨rfl, rfl⟩ | row⟩
    · exact .empty
    · exact .items row

/-- Behind a row, and behind what stands in it, comes a mark or what follows the row. -/
theorem IsTail.eq_nil_or_mark (h : IsTail mark IsItem ls as) :
    ls = [] ∨ ∃ ls', ls = .punct mark :: ls' := by
  cases h with
  | nil => exact .inl rfl
  | cons first more => exact .inr ⟨_, rfl⟩

/-- Each item behind a mark derives from some of the lexemes. -/
theorem IsTail.exists_of_mem (h : IsTail mark IsItem ls as) {a : α} (ha : a ∈ as) :
    ∃ ls', IsItem ls' a ∧ ls' ⊆ ls := by
  induction h with
  | nil => cases ha
  | cons first more ih =>
    rcases List.mem_cons.mp ha with rfl | hmem
    · refine ⟨_, first, ?_⟩
      intro l hl
      exact List.mem_cons_of_mem _ (List.mem_append_left _ hl)
    · obtain ⟨ls', hitem, hsub⟩ := ih hmem
      refine ⟨ls', hitem, ?_⟩
      intro l hl
      exact List.mem_cons_of_mem _ (List.mem_append_right _ (hsub hl))

/-- Each item of a row derives from some of the lexemes. -/
theorem IsRow.exists_of_mem (h : IsRow mark IsItem ls as) {a : α} (ha : a ∈ as) :
    ∃ ls', IsItem ls' a ∧ ls' ⊆ ls := by
  obtain ⟨first, more⟩ := h
  rcases List.mem_cons.mp ha with rfl | hmem
  · exact ⟨_, first, List.subset_append_left _ _⟩
  · obtain ⟨ls', hitem, hsub⟩ := more.exists_of_mem hmem
    exact ⟨ls', hitem, fun l hl => List.mem_append_right _ (hsub hl)⟩

/-- Each item between parentheses derives from some of the lexemes. -/
theorem IsParenthesised.exists_of_mem (h : IsParenthesised IsItem ls as) {a : α} (ha : a ∈ as) :
    ∃ ls', IsItem ls' a ∧ ls' ⊆ ls := by
  cases h with
  | empty => cases ha
  | items row =>
    obtain ⟨ls', hitem, hsub⟩ := row.exists_of_mem ha
    refine ⟨ls', hitem, ?_⟩
    intro l hl
    exact List.mem_cons_of_mem _ (List.mem_append_left _ (hsub hl))

/-- There are no more items behind marks than lexemes. -/
theorem IsTail.length_le (h : IsTail mark IsItem ls as) : as.length ≤ ls.length := by
  induction h with
  | nil => exact Nat.le_refl _
  | cons first more ih =>
    rw [List.length_cons, List.length_cons, List.length_append]
    omega

end Rows

/-! ## First lexemes -/

/-- A clause starts with a parenthesis. -/
theorem IsClause.exists_openParen {ls : List Lexeme} {c : Clause} (h : IsClause ls c) :
    ∃ ls', ls = .punct .openParen :: ls' := by
  obtain ⟨parameters, inside⟩ := h
  obtain ⟨ls', rfl, -⟩ := isParenthesised_iff.mp parameters
  exact ⟨_, rfl⟩

/-- A function starts with the parenthesis of its first clause. -/
theorem IsExpression.exists_openParen {ls : List Lexeme} {first : Clause} {others : List Clause}
    (h : IsExpression ls (.function first others)) : ∃ ls', ls = .punct .openParen :: ls' := by
  cases h with
  | function clauses =>
    obtain ⟨hfirst, more⟩ := clauses
    obtain ⟨ls', rfl⟩ := hfirst.exists_openParen
    exact ⟨_, rfl⟩

/-- What starts with a parenthesis is a function. -/
theorem IsExpression.eq_function {ls : List Lexeme} {e : Expr}
    (h : IsExpression (.punct .openParen :: ls) e) :
    ∃ first others, e = .function first others := by
  generalize hls : Lexeme.punct .openParen :: ls = ls' at h
  cases h with
  | function clauses => exact ⟨_, _, rfl⟩
  | _ => cases hls

/-- An expression starts with a string, an identifier or a parenthesis. -/
theorem IsExpression.exists_first {ls : List Lexeme} {e : Expr} (h : IsExpression ls e) :
    ∃ l ls', ls = l :: ls' ∧ Reading.startsExpression l = true := by
  cases h with
  | string text => exact ⟨_, _, rfl, rfl⟩
  | call name arguments => exact ⟨_, _, rfl, rfl⟩
  | «variable» name => exact ⟨_, _, rfl, rfl⟩
  | function clauses =>
    obtain ⟨ls', rfl⟩ := (IsExpression.function clauses).exists_openParen
    exact ⟨_, _, rfl, rfl⟩

/-- A declaration starts with its name. -/
theorem IsDeclaration.exists_identifier {ls : List Lexeme} {d : Declaration}
    (h : IsDeclaration ls d) : ∃ ls', ls = .identifier d.name :: ls' := by
  obtain ⟨name, expression⟩ := h
  exact ⟨_, rfl⟩

/-- The lexemes of a module are none, or start with an identifier. -/
theorem IsModule.eq_nil_or_identifier {ls : List Lexeme} {ds : List Declaration}
    (h : IsModule ls ds) : ls = [] ∨ ∃ name ls', ls = .identifier name :: ls' := by
  cases h with
  | nil => exact .inl rfl
  | cons first more =>
    obtain ⟨ls', rfl⟩ := first.exists_identifier
    exact .inr ⟨_, _, rfl⟩

/-- A module has no more declarations than lexemes. -/
theorem IsModule.length_le {ls : List Lexeme} {ds : List Declaration} (h : IsModule ls ds) :
    ds.length ≤ ls.length := by
  induction h with
  | nil => exact Nat.le_refl _
  | cons first more ih =>
    obtain ⟨ls', hls⟩ := first.exists_identifier
    rw [hls, List.cons_append, List.length_cons, List.length_cons, List.length_append]
    omega

/-! ## Trees within a number of levels -/

/-- The lexemes of an expression that nests within a number of levels. -/
def IsExpressionWithin (depth : Nat) (ls : List Lexeme) (e : Expr) : Prop :=
  IsExpression ls e ∧ e.nesting ≤ depth

/-- The lexemes of a clause that nests within a number of levels. -/
def IsClauseWithin (depth : Nat) (ls : List Lexeme) (c : Clause) : Prop :=
  IsClause ls c ∧ c.nesting ≤ depth

/-- The lexemes of a declaration whose value nests within a number of levels. -/
def IsDeclarationWithin (depth : Nat) (ls : List Lexeme) (d : Declaration) : Prop :=
  IsDeclaration ls d ∧ d.value.nesting ≤ depth

/-- A string takes one level. -/
theorem IsExpressionWithin.string (depth : Nat) (text : String) :
    IsExpressionWithin (depth + 1) [.string text] (.string text) :=
  ⟨.string text, Nat.succ_le_succ (Nat.zero_le _)⟩

/-- A variable takes one level. -/
theorem IsExpressionWithin.variable (depth : Nat) (name : String) :
    IsExpressionWithin (depth + 1) [.identifier name] (.variable name) :=
  ⟨.variable name, Nat.succ_le_succ (Nat.zero_le _)⟩

/-- A call takes one level more than its arguments. -/
theorem isExpressionWithin_call_iff {depth : Nat} {name : String} {ls : List Lexeme}
    {args : List Expr} : IsExpressionWithin (depth + 1) ls (.call name args) ↔
      ∃ ls', ls = .identifier name :: ls' ∧
        IsParenthesised (IsExpressionWithin depth) ls' args := by
  unfold IsExpressionWithin
  rw [Expr.nesting_call_le_iff]
  constructor
  · rintro ⟨hcall, hall⟩
    cases hcall with
    | call _ arguments => exact ⟨_, rfl, isParenthesised_and_iff.mpr ⟨arguments, hall⟩⟩
  · rintro ⟨ls', rfl, h⟩
    obtain ⟨arguments, hall⟩ := isParenthesised_and_iff.mp h
    exact ⟨.call name arguments, hall⟩

/-- A function takes one level more than its clauses. -/
theorem isExpressionWithin_function_iff {depth : Nat} {ls : List Lexeme} {first : Clause}
    {others : List Clause} : IsExpressionWithin (depth + 1) ls (.function first others) ↔
      IsRow .semicolon (IsClauseWithin depth) ls (first :: others) := by
  unfold IsExpressionWithin IsClauseWithin
  rw [Expr.nesting_function_le_iff, isRow_and_iff]
  constructor
  · rintro ⟨hfunction, hall⟩
    cases hfunction with
    | function clauses => exact ⟨clauses, hall⟩
  · rintro ⟨clauses, hall⟩
    exact ⟨.function clauses, hall⟩

/-- A clause takes the levels of its body. -/
theorem isClauseWithin_iff {depth : Nat} {ls : List Lexeme} {patterns : List Pattern}
    {body : Expr} : IsClauseWithin depth ls (.mk patterns body) ↔
      ∃ ls' ls'', ls = ls' ++ .punct .openBrace :: (ls'' ++ [.punct .closeBrace]) ∧
        IsParenthesised IsPattern ls' patterns ∧ IsExpressionWithin depth ls'' body := by
  constructor
  · rintro ⟨⟨parameters, inside⟩, hnesting⟩
    exact ⟨_, _, rfl, parameters, inside, hnesting⟩
  · rintro ⟨ls', ls'', rfl, parameters, inside, hnesting⟩
    exact ⟨.mk parameters inside, hnesting⟩

/-- A declaration takes the levels of its value. -/
theorem isDeclarationWithin_iff {depth : Nat} {ls : List Lexeme} {d : Declaration} :
    IsDeclarationWithin depth ls d ↔
      ∃ ls', ls = .identifier d.name :: .punct .equal :: ls' ∧
        IsExpressionWithin depth ls' d.value := by
  constructor
  · rintro ⟨⟨name, expression⟩, hnesting⟩
    exact ⟨_, rfl, expression, hnesting⟩
  · rintro ⟨ls', rfl, expression, hnesting⟩
    exact ⟨.mk d.name expression, hnesting⟩

/-! ## What every rule keeps -/

/-- A property of lexemes that every rule of the grammar keeps: names, strings and separators have
it, and it goes through rows, parentheses and braces. -/
structure Hereditary (P : List Lexeme → Prop) : Prop where
  /-- No lexemes have it. -/
  nil : P []
  /-- Lexemes in a row have it when both parts do. -/
  append : ∀ {ls ls' : List Lexeme}, P ls → P ls' → P (ls ++ ls')
  /-- A name has it. -/
  identifier : ∀ name, P [.identifier name]
  /-- A string has it. -/
  string : ∀ text, P [.string text]
  /-- A separator has it. -/
  separator : ∀ mark ∈ [Punct.equal, .comma, .semicolon], P [.punct mark]
  /-- What stands between parentheses has it with them. -/
  parentheses : ∀ {ls : List Lexeme}, P ls → P (.punct .openParen :: (ls ++ [.punct .closeParen]))
  /-- What stands between braces has it with them. -/
  braces : ∀ {ls : List Lexeme}, P ls → P (.punct .openBrace :: (ls ++ [.punct .closeBrace]))

namespace Hereditary

variable {P : List Lexeme → Prop} (hP : Hereditary P) {ls : List Lexeme}

include hP

/-- A separator in front of lexemes keeps the property. -/
theorem cons_separator {mark : Punct} (hmark : mark ∈ [Punct.equal, .comma, .semicolon])
    (h : P ls) : P (.punct mark :: ls) :=
  hP.append (hP.separator mark hmark) h

section Rows

variable {α : Type} {mark : Punct} {IsItem : List Lexeme → α → Prop} {as : List α}
  (hitem : ∀ ls a, IsItem ls a → P ls)

include hitem

/-- Items behind marks have the property when each item does. -/
theorem tail (hmark : mark ∈ [Punct.equal, .comma, .semicolon]) (h : IsTail mark IsItem ls as) :
    P ls := by
  induction h with
  | nil => exact hP.nil
  | cons first more ih => exact hP.cons_separator hmark (hP.append (hitem _ _ first) ih)

/-- A row has the property when each item does. -/
theorem row (hmark : mark ∈ [Punct.equal, .comma, .semicolon]) (h : IsRow mark IsItem ls as) :
    P ls := by
  obtain ⟨first, more⟩ := h
  exact hP.append (hitem _ _ first) (hP.tail hitem hmark more)

/-- What stands between parentheses has the property when each item does. -/
theorem parenthesised (h : IsParenthesised IsItem ls as) : P ls := by
  cases h with
  | empty => exact hP.parentheses hP.nil
  | items row => exact hP.parentheses (hP.row hitem (by simp) row)

end Rows

/-- The lexemes of an expression have the property. The induction is on the levels to which it
nests. -/
theorem expressionWithin {depth : Nat} {e : Expr} (h : IsExpressionWithin depth ls e) : P ls := by
  induction depth generalizing ls e with
  | zero =>
    have hpos := e.nesting_pos
    have hle := h.2
    omega
  | succ depth ih =>
    cases e with
    | string text =>
      obtain ⟨hstring, -⟩ := h
      cases hstring
      exact hP.string text
    | «variable» name =>
      obtain ⟨hvariable, -⟩ := h
      cases hvariable
      exact hP.identifier name
    | call name args =>
      obtain ⟨ls', rfl, harguments⟩ := isExpressionWithin_call_iff.mp h
      exact hP.append (hP.identifier name) (hP.parenthesised (fun _ _ => ih) harguments)
    | function first others =>
      refine hP.row ?_ (by simp) (isExpressionWithin_function_iff.mp h)
      rintro ls ⟨patterns, body⟩ hclause
      obtain ⟨ls₁, ls₂, rfl, hparameters, hinside⟩ := isClauseWithin_iff.mp hclause
      have hpatterns : P ls₁ := by
        refine hP.parenthesised (fun _ _ hpattern => ?_) hparameters
        obtain ⟨name⟩ := hpattern
        exact hP.identifier name
      exact hP.append hpatterns (hP.braces (ih hinside))

/-- The lexemes of an expression have the property. -/
theorem expression {e : Expr} (h : IsExpression ls e) : P ls :=
  hP.expressionWithin ⟨h, Nat.le_refl e.nesting⟩

/-- The lexemes of a module have the property. -/
theorem module {ds : List Declaration} (h : IsModule ls ds) : P ls := by
  induction h with
  | nil => exact hP.nil
  | cons first more ih =>
    obtain ⟨name, expression⟩ := first
    refine hP.append (hP.append (hP.identifier name) ?_) ih
    exact hP.cons_separator (by simp) (hP.expression expression)

end Hereditary

end QLanguage.Grammar
