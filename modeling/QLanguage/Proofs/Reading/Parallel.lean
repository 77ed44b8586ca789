import Mathlib.Data.List.Forall2
import QLanguage.Proofs.Steps
import QLanguage.Session.Line

/-!
# Readings side by side

Reading decides by the lexemes that it meets, never by where they stand. So two sources whose
lexemes are the same, at other places, are read side by side: with the same trees, and with
diagnostics that differ in their places only. `Companions` collects what has to be known of the
tokens of both sources and of the diagnostics that can be made of them, and one lemma for each
reading goes from there to whole modules (`Companions.parseModule`).

With a source that is its own companion this is a statement about one source: the texts of the trees
and of the diagnostics that are read from it are texts of its tokens.
-/

namespace QLanguage

open Step

/-! ## The texts of a tree -/

mutual

/-- Every name and every string in an expression has a property. -/
def Expr.Texts (N : String → Prop) : Expr → Prop
  | .string text => N text
  | .variable name => N name
  | .call name args => N name ∧ Expr.AllTexts N args
  | .function first others => first.Texts N ∧ Clause.AllTexts N others

/-- Every name and every string in some expressions has a property. -/
def Expr.AllTexts (N : String → Prop) : List Expr → Prop
  | [] => True
  | e :: es => e.Texts N ∧ Expr.AllTexts N es

/-- Every name and every string in a pattern has a property. -/
def Pattern.Texts (N : String → Prop) : Pattern → Prop
  | .bind name => N name
  | .wildcard => True
  | .literal value => value.Texts N

/-- Every name and every string in some patterns has a property. -/
def Pattern.AllTexts (N : String → Prop) : List Pattern → Prop
  | [] => True
  | p :: ps => p.Texts N ∧ Pattern.AllTexts N ps

/-- Every name and every string in a clause has a property. -/
def Clause.Texts (N : String → Prop) : Clause → Prop
  | .mk patterns body => Pattern.AllTexts N patterns ∧ body.Texts N

/-- Every name and every string in some clauses has a property. -/
def Clause.AllTexts (N : String → Prop) : List Clause → Prop
  | [] => True
  | c :: cs => c.Texts N ∧ Clause.AllTexts N cs

end

/-- Every name and every string in a declaration has a property. -/
def Declaration.Texts (N : String → Prop) (d : Declaration) : Prop := N d.name ∧ d.value.Texts N

section

variable {N : String → Prop}

/-- The texts of some expressions are those of each of them. -/
theorem Expr.allTexts_iff {es : List Expr} : Expr.AllTexts N es ↔ ∀ e ∈ es, e.Texts N := by
  induction es with
  | nil => simp [Expr.AllTexts]
  | cons e es ih => simp [Expr.AllTexts, ih]

/-- The texts of some patterns are those of each of them. -/
theorem Pattern.allTexts_iff {ps : List Pattern} : Pattern.AllTexts N ps ↔ ∀ p ∈ ps, p.Texts N := by
  induction ps with
  | nil => simp [Pattern.AllTexts]
  | cons p ps ih => simp [Pattern.AllTexts, ih]

/-- The texts of some clauses are those of each of them. -/
theorem Clause.allTexts_iff {cs : List Clause} : Clause.AllTexts N cs ↔ ∀ c ∈ cs, c.Texts N := by
  induction cs with
  | nil => simp [Clause.AllTexts]
  | cons c cs ih => simp [Clause.AllTexts, ih]

end

/-! ## Sources side by side -/

/-- Two lexemes are both tokens that `T` relates, or both integers of the same length that is too
much. -/
inductive Lexed.Paired (T : Token → Token → Prop) : Lexed → Lexed → Prop where
  /-- Both are tokens. -/
  | token {t t' : Token} (h : T t t') : Lexed.Paired T (.token t) (.token t')
  /-- Both are integers that are too long. -/
  | overlong (digits : Nat) (span span' : Span) :
      Lexed.Paired T (.overlong digits span) (.overlong digits span')

/-- Two readings stop for the same reason, or at diagnostics that `D` relates. -/
inductive Stop.Paired (D : Diagnostic → Diagnostic → Prop) : Stop → Stop → Prop where
  /-- Both stop at a diagnostic. -/
  | diagnostic {d d' : Diagnostic} (h : D d d') : Stop.Paired D (.diagnostic d) (.diagnostic d')
  /-- Both stop at an integer that is too long. -/
  | overlong (digits : Nat) : Stop.Paired D (.overlong digits) (.overlong digits)
  /-- Both run out of levels. -/
  | tooDeep : Stop.Paired D .tooDeep .tooDeep

/-- Two entries are the same declaration, whose texts have a property, or diagnostics that `D`
relates. -/
inductive Entry.Paired (N : String → Prop) (D : Diagnostic → Diagnostic → Prop) :
    Entry → Entry → Prop where
  /-- Both are a declaration. -/
  | declaration {d : Declaration} (h : d.Texts N) : Entry.Paired N D (.ok d) (.ok d)
  /-- Both are diagnostics. -/
  | diagnostic {d d' : Diagnostic} (h : D d d') : Entry.Paired N D (.error d) (.error d')

/-- Two readings of a module give the same declarations, whose texts have a property, and
diagnostics that `D` relates. -/
structure Parsed.Paired (N : String → Prop) (D : Diagnostic → Diagnostic → Prop)
    (parsed parsed' : Parsed) : Prop where
  /-- The declarations are the same. -/
  module : parsed'.module = parsed.module
  /-- Their texts have the property. -/
  texts : ∀ d ∈ parsed.module.items, d.Texts N
  /-- The diagnostics are in pairs. -/
  diagnostics : List.Forall₂ D parsed.diagnostics parsed'.diagnostics

/-- Entries in pairs make modules in pairs. -/
theorem Parsed.ofEntries_paired (name : String) {N : String → Prop}
    {D : Diagnostic → Diagnostic → Prop} {es es' : List Entry}
    (h : List.Forall₂ (Entry.Paired N D) es es') :
    Parsed.Paired N D (.ofEntries name es) (.ofEntries name es') := by
  induction h with
  | nil => exact ⟨rfl, fun _ hd => absurd hd List.not_mem_nil, .nil⟩
  | cons hentry _ ih =>
    cases hentry with
    | declaration hd => exact {
        module := by simpa [Parsed.ofEntries] using ih.module
        texts := by simpa [Parsed.ofEntries] using And.intro hd ih.texts
        diagnostics := by simpa [Parsed.ofEntries] using ih.diagnostics }
    | diagnostic hd => exact {
        module := by simpa [Parsed.ofEntries] using ih.module
        texts := by simpa [Parsed.ofEntries] using ih.texts
        diagnostics := by simpa [Parsed.ofEntries] using And.intro hd ih.diagnostics }

/-- The kind is one that a reading may ask for: a kind of lexemes, or the end of the source. -/
def Kind.Asked : Kind → Prop
  | .other label => Kind.other label = .endOfInput
  | _ => True

/-- Two cursors stand before lexemes in pairs, each in its source. -/
structure Cursor.Paired (source source' : String) (T : Token → Token → Prop) (c c' : Cursor) :
    Prop where
  /-- The lexemes are in pairs. -/
  rest : List.Forall₂ (Lexed.Paired T) c.rest c'.rest
  /-- The first cursor is in the first source. -/
  length : c.length = source.length
  /-- The second cursor is in the second source. -/
  length' : c'.length = source'.length

/-- The start of a source is in a pair with itself when its tokens are. -/
theorem Cursor.paired_self {source : String} {T : Token → Token → Prop}
    (h : ∀ t, .token t ∈ lexemes source → T t t) :
    Cursor.Paired source source T (.ofSource source) (.ofSource source) := by
  refine ⟨List.forall₂_same.2 fun l hl => ?_, rfl, rfl⟩
  cases l with
  | token t => exact .token (h t hl)
  | overlong digits span => exact .overlong digits span span

/-- What is needed of texts with `N`, tokens that `T` relates and diagnostics that `D` relates, for
two sources of one name to be read side by side. -/
structure Companions (sourceName source source' : String) (N : String → Prop)
    (T : Token → Token → Prop) (D : Diagnostic → Diagnostic → Prop) : Prop where
  /-- Tokens in pairs have the same lexeme. -/
  lexeme {t t' : Token} : T t t' → t'.lexeme = t.lexeme
  /-- The name of an identifier. -/
  name {t t' : Token} {name : String} : T t t' → t.lexeme = .identifier name → N name
  /-- The text of a string. -/
  text {t t' : Token} {text : String} : T t t' → t.lexeme = .string text → N text
  /-- A token of another kind may be asked for. -/
  unexpected {kind : Kind} {t t' : Token} :
    kind.Asked → T t t' → D (.unexpected kind t) (.unexpected kind t')
  /-- A token may start no expression. -/
  expectedExpression {t t' : Token} : T t t' → D (.expectedExpression t) (.expectedExpression t')
  /-- A token may be no pattern. -/
  expectedPattern {t t' : Token} : T t t' → D (.expectedPattern t) (.expectedPattern t')
  /-- A declaration may have something else than a value. -/
  missingValue {name : String} {t t' : Token} : N name → T t t' →
    D (.missingValue name t.span (some source) (some sourceName))
      (.missingValue name t'.span (some source') (some sourceName))
  /-- A declaration may have nothing behind its equals sign. -/
  missingAtEnd {name : String} : N name →
    D (.missingValue name ⟨source.length, source.length⟩ (some source) (some sourceName))
      (.missingValue name ⟨source'.length, source'.length⟩ (some source') (some sourceName))
  /-- The source may end too early. -/
  endOfInput : D (.endOfInput (some source.length)) (.endOfInput (some source'.length))

namespace Companions

variable {sourceName source source' : String} {N : String → Prop} {T : Token → Token → Prop}
  {D : Diagnostic → Diagnostic → Prop}

/-- Two readings of cursors in pairs give results that `A` relates, or stop in pairs. -/
abbrev Reads {α β : Type} (source source' : String) (T : Token → Token → Prop)
    (D : Diagnostic → Diagnostic → Prop) (A : α → β → Prop) (reading : Reading α)
    (reading' : Reading β) : Prop :=
  Relates (Cursor.Paired source source' T) (Stop.Paired D) A reading reading'

/-! ## Tokens -/

/-- Looking at the next token. -/
theorem peek : Reads source source' T D (Option.Rel T) Reading.peek Reading.peek := by
  rintro ⟨rest, span, length⟩ ⟨rest', span', length'⟩ ⟨hrest, hlength, hlength'⟩
  cases hrest with
  | nil => exact ⟨.ok .none, .nil, hlength, hlength'⟩
  | cons hfirst hmore =>
    cases hfirst with
    | token h => exact ⟨.ok (.some h), .cons (.token h) hmore, hlength, hlength'⟩
    | overlong digits place place' => exact ⟨.error (.overlong digits), hmore, hlength, hlength'⟩

variable (h : Companions sourceName source source' N T D)

include h

/-- Tokens in pairs are of the same kind. -/
theorem kind {t t' : Token} (ht : T t t') : t'.kind = t.kind := congrArg Lexeme.kind (h.lexeme ht)

/-- Taking the next token. -/
theorem next : Reads source source' T D T Reading.next Reading.next := by
  rintro ⟨rest, span, length⟩ ⟨rest', span', length'⟩ ⟨hrest, rfl, rfl⟩
  cases hrest with
  | nil => exact ⟨.error (.diagnostic h.endOfInput), .nil, rfl, rfl⟩
  | cons hfirst hmore =>
    cases hfirst with
    | token ht => exact ⟨.ok ht, hmore, rfl, rfl⟩
    | overlong digits place place' => exact ⟨.error (.overlong digits), hmore, rfl, rfl⟩

/-- Taking a token of a kind. -/
theorem expect (kind : Kind) (hkind : kind.Asked) :
    Reads source source' T D T (Reading.expect kind) (Reading.expect kind) := by
  refine .bind h.next fun t t' ht => ?_
  rw [h.kind ht]
  split
  · exact .pure ht
  · exact .throw (.diagnostic (h.unexpected hkind ht))

/-- Taking a mark if it comes next. -/
theorem accept (p : Punct) :
    Reads source source' T D Eq (Reading.accept p) (Reading.accept p) := by
  refine .bind peek fun found found' hfound => ?_
  cases hfound with
  | none => exact .pure rfl
  | some ht =>
    dsimp only
    rw [h.kind ht]
    split
    · exact .bind h.next fun _ _ _ => .pure rfl
    · exact .pure rfl

/-! ## Rows -/

section Rows

variable {α : Type} {P : α → Prop} {item item' : Reading α}
  (hitem : Reads source source' T D (SameWith P) item item')

include hitem

/-- Items behind marks. -/
theorem itemsAfter (mark : Punct) (fuel : Nat) :
    Reads source source' T D (SameWith fun as => ∀ a ∈ as, P a)
      (Reading.itemsAfter mark item fuel) (Reading.itemsAfter mark item' fuel) := by
  induction fuel with
  | zero => exact .pure ⟨rfl, fun _ ha => absurd ha List.not_mem_nil⟩
  | succ fuel ih =>
    refine .bind (h.accept mark) ?_
    rintro accepted _ rfl
    cases accepted with
    | false => exact .pure ⟨rfl, fun _ ha => absurd ha List.not_mem_nil⟩
    | true =>
      refine .bind hitem ?_
      rintro first _ ⟨rfl, hfirst⟩
      refine .bind ih ?_
      rintro more _ ⟨rfl, hmore⟩
      exact .pure ⟨rfl, List.forall_mem_cons.2 ⟨hfirst, hmore⟩⟩

/-- A row. -/
theorem row (mark : Punct) :
    Reads source source' T D (SameWith fun as => ∀ a ∈ as, P a)
      (Reading.row mark item) (Reading.row mark item') := by
  refine .bind hitem ?_
  rintro first _ ⟨rfl, hfirst⟩
  refine .bind .get fun c c' hc => ?_
  rw [hc.rest.length_eq]
  refine .bind (h.itemsAfter hitem mark _) ?_
  rintro more _ ⟨rfl, hmore⟩
  exact .pure ⟨rfl, List.forall_mem_cons.2 ⟨hfirst, hmore⟩⟩

/-- What stands between parentheses. -/
theorem parenthesised :
    Reads source source' T D (SameWith fun as => ∀ a ∈ as, P a)
      (Reading.parenthesised item) (Reading.parenthesised item') := by
  refine .bind (h.accept .closeParen) ?_
  rintro closed _ rfl
  cases closed with
  | true => exact .pure ⟨rfl, fun _ ha => absurd ha List.not_mem_nil⟩
  | false =>
    refine .bind (h.row hitem .comma) ?_
    rintro items _ ⟨rfl, hitems⟩
    exact .bind (h.expect _ trivial) fun _ _ _ => .pure ⟨rfl, hitems⟩

end Rows

/-! ## Expressions -/

/-- A pattern. -/
theorem pattern :
    Reads source source' T D (SameWith (Pattern.Texts N)) Reading.pattern Reading.pattern := by
  refine .bind h.next fun t t' ht => ?_
  rw [h.lexeme ht]
  split
  · next name hname => exact .pure ⟨rfl, h.name ht hname⟩
  · exact .throw (.diagnostic (h.expectedPattern ht))

section Expressions

variable {expression expression' : Reading Expr}
  (hexpression : Reads source source' T D (SameWith (Expr.Texts N)) expression expression')

include hexpression

/-- A clause. -/
theorem clause :
    Reads source source' T D (SameWith (Clause.Texts N)) (Reading.clause expression)
      (Reading.clause expression') := by
  refine .bind (h.parenthesised h.pattern) ?_
  rintro patterns _ ⟨rfl, hpatterns⟩
  refine .bind (h.expect _ trivial) fun _ _ _ => .bind hexpression ?_
  rintro body _ ⟨rfl, hbody⟩
  exact .bind (h.expect _ trivial) fun _ _ _ =>
    .pure ⟨rfl, Pattern.allTexts_iff.2 hpatterns, hbody⟩

/-- A function. -/
theorem function :
    Reads source source' T D (SameWith (Expr.Texts N)) (Reading.function expression)
      (Reading.function expression') := by
  refine .bind (h.clause hexpression) ?_
  rintro first _ ⟨rfl, hfirst⟩
  refine .bind .get fun c c' hc => ?_
  rw [hc.rest.length_eq]
  have hclause := Relates.bind (h.expect (.punct .openParen) trivial) fun _ _ _ =>
    h.clause hexpression
  refine .bind (h.itemsAfter hclause _ _) ?_
  rintro others _ ⟨rfl, hothers⟩
  exact .pure ⟨rfl, hfirst, Clause.allTexts_iff.2 hothers⟩

end Expressions

/-- An expression. -/
theorem expression (depth : Nat) :
    Reads source source' T D (SameWith (Expr.Texts N)) (Reading.expression depth)
      (Reading.expression depth) := by
  induction depth with
  | zero => exact .throw .tooDeep
  | succ depth ih =>
    refine .bind h.next fun t t' ht => ?_
    rw [h.lexeme ht]
    split
    · next text htext => exact .pure ⟨rfl, h.text ht htext⟩
    · next name hname =>
      refine .bind (h.accept .openParen) ?_
      rintro called _ rfl
      cases called with
      | false => exact .pure ⟨rfl, h.name ht hname⟩
      | true =>
        refine .bind (h.parenthesised ih) ?_
        rintro args _ ⟨rfl, hargs⟩
        exact .pure ⟨rfl, h.name ht hname, Expr.allTexts_iff.2 hargs⟩
    · exact h.function ih
    · exact .throw (.diagnostic (h.expectedExpression ht))

/-- An expression and the end of the source. -/
theorem wholeExpression (depth : Nat) :
    Reads source source' T D (SameWith (Expr.Texts N)) (Reading.wholeExpression depth)
      (Reading.wholeExpression depth) := by
  refine .bind (h.expression depth) ?_
  rintro e _ ⟨rfl, he⟩
  refine .bind peek fun found found' hfound => ?_
  cases hfound with
  | none => exact .pure ⟨rfl, he⟩
  | some _ => exact .bind h.next fun _ _ ht => .throw (.diagnostic (h.unexpected rfl ht))

/-! ## Declarations -/

/-- Whether a declaration comes next. -/
theorem atDeclaration :
    Reads source source' T D Eq Reading.atDeclaration Reading.atDeclaration := by
  refine .bind .get ?_
  rintro ⟨rest, span, length⟩ ⟨rest', span', length'⟩ ⟨hrest, -, -⟩
  -- Two lexemes decide, and they are there or not in both sources.
  dsimp only at hrest ⊢
  cases hrest with
  | nil => exact .pure rfl
  | cons hfirst hmore =>
    cases hfirst with
    | overlong digits place place' => exact .pure rfl
    | token hname =>
      cases hmore with
      | nil => exact .pure rfl
      | cons hsecond _ =>
        cases hsecond with
        | token hmark =>
          dsimp only
          rw [h.kind hname, h.kind hmark]
          exact .pure rfl
        | overlong digits place place' =>
          dsimp only
          rw [h.kind hname]
          split
          · exact .throw (.overlong digits)
          · exact .pure rfl

/-- Skipping tokens. -/
theorem skipWithin (fuel : Nat) :
    Reads source source' T D (fun _ _ => True) (Reading.skipWithin fuel)
      (Reading.skipWithin fuel) := by
  induction fuel with
  | zero => exact .pure trivial
  | succ fuel ih =>
    refine .bind peek fun found found' hfound => ?_
    cases hfound with
    | none => exact .pure trivial
    | some _ =>
      refine .bind h.atDeclaration ?_
      rintro reached _ rfl
      cases reached with
      | true => exact .pure trivial
      | false => exact .bind h.next fun _ _ _ => ih

/-- Skipping to the next declaration. -/
theorem skipToDeclaration :
    Reads source source' T D (fun _ _ => True) Reading.skipToDeclaration
      Reading.skipToDeclaration := by
  refine .bind .get fun c c' hc => ?_
  rw [hc.rest.length_eq]
  exact h.skipWithin _

/-- The value of a declaration. -/
theorem value (depth : Nat) {name : String} (hname : N name) :
    Reads source source' T D (SameWith (Expr.Texts N))
      (Reading.value depth sourceName source name)
      (Reading.value depth sourceName source' name) := by
  refine .bind peek fun found found' hfound => ?_
  cases hfound with
  | none =>
    refine .bind .get ?_
    rintro ⟨rest, span, length⟩ ⟨rest', span', length'⟩ ⟨-, rfl, rfl⟩
    exact .throw (.diagnostic (h.missingAtEnd hname))
  | some ht =>
    dsimp only
    rw [h.lexeme ht]
    split
    · exact h.expression depth
    · exact .bind h.next fun _ _ _ => .throw (.diagnostic (h.missingValue hname ht))

/-- A reading that may skip. -/
theorem orSkip {α : Type} {A : α → α → Prop} {reading reading' : Reading α}
    (hreading : Reads source source' T D A reading reading') :
    Reads source source' T D A (Reading.orSkip reading) (Reading.orSkip reading') := by
  refine .tryCatch hreading fun stop stop' hstop => ?_
  cases hstop with
  | diagnostic hd => exact .bind h.skipToDeclaration fun _ _ _ => .throw (.diagnostic hd)
  | overlong digits => exact .throw (.overlong digits)
  | tooDeep => exact .throw .tooDeep

/-- A declaration. -/
theorem declaration (depth : Nat) :
    Reads source source' T D (SameWith (Declaration.Texts N))
      (Reading.declaration depth sourceName source)
      (Reading.declaration depth sourceName source') := by
  refine .bind h.next fun t t' ht => ?_
  rw [h.lexeme ht]
  split
  · next name hname =>
    refine .bind (h.expect _ trivial) fun _ _ _ =>
      .bind (h.orSkip (h.value depth (h.name ht hname))) ?_
    rintro value _ ⟨rfl, hvalue⟩
    exact .pure ⟨rfl, h.name ht hname, hvalue⟩
  · exact .bind h.skipToDeclaration fun _ _ _ =>
      .throw (.diagnostic (h.unexpected trivial ht))

omit h in
/-- A declaration that is recorded. What still stops the reading is no diagnostic. -/
theorem recorded {reading reading' : Reading Declaration}
    (hreading : Reads source source' T D (SameWith (Declaration.Texts N)) reading reading') :
    Reads source source' T (fun _ _ => False) (Entry.Paired N D) (Reading.recorded reading)
      (Reading.recorded reading') := by
  refine Relates.tryCatch (E := Stop.Paired D) (.bind hreading ?_) fun stop stop' hstop => ?_
  · rintro d _ ⟨rfl, hd⟩
    exact .pure (.declaration hd)
  · cases hstop with
    | diagnostic hd => exact .pure (.diagnostic hd)
    | overlong digits => exact .throw (.overlong digits)
    | tooDeep => exact .throw .tooDeep

/-- Declarations up to the end of the source. -/
theorem entriesWithin (depth fuel : Nat) :
    Reads source source' T (fun _ _ => False) (List.Forall₂ (Entry.Paired N D))
      (Reading.entriesWithin depth sourceName source fuel)
      (Reading.entriesWithin depth sourceName source' fuel) := by
  induction fuel with
  | zero => exact .pure .nil
  | succ fuel ih =>
    refine .bind peek fun found found' hfound => ?_
    cases hfound with
    | none => exact .pure .nil
    | some _ =>
      refine .bind (recorded (h.declaration depth)) fun entry entry' hentry => ?_
      exact .bind ih fun more more' hmore => .pure (.cons hentry hmore)

/-- All declarations of the source. -/
theorem entries (depth : Nat) :
    Reads source source' T (fun _ _ => False) (List.Forall₂ (Entry.Paired N D))
      (Reading.entries depth sourceName source) (Reading.entries depth sourceName source') := by
  refine .bind .get fun c c' hc => ?_
  rw [hc.rest.length_eq]
  exact h.entriesWithin depth _

/-- Whole modules are read side by side. Where neither is read, it is for the same reason, and that
is no diagnostic. -/
theorem parseModule (depth : Nat)
    (hcursors : Cursor.Paired source source' T (.ofSource source) (.ofSource source')) :
    Alike (SameWith fun stop => ∀ d, stop ≠ .diagnostic d) (Parsed.Paired N D)
      (QLanguage.parseModule depth sourceName source)
      (QLanguage.parseModule depth sourceName source') := by
  obtain ⟨hend, -⟩ := h.entries depth _ _ hcursors
  unfold QLanguage.parseModule
  generalize ((Reading.entries depth sourceName source).run (.ofSource source)).1 = read at hend ⊢
  generalize ((Reading.entries depth sourceName source').run (.ofSource source')).1 = read'
    at hend ⊢
  cases hend with
  | ok hentries => exact .ok (Parsed.ofEntries_paired sourceName hentries)
  | error hstop =>
    cases hstop with
    | diagnostic hd => exact hd.elim
    | overlong digits => exact .error ⟨rfl, fun _ => Stop.noConfusion⟩
    | tooDeep => exact .error ⟨rfl, fun _ => Stop.noConfusion⟩

/-- Whether a line starts with a declaration. -/
theorem startsDeclaration :
    Reads source source' T D Eq Reading.startsDeclaration Reading.startsDeclaration := by
  refine .bind peek fun first first' hfirst => ?_
  cases hfirst with
  | none => exact .pure rfl
  | some ht =>
    dsimp only
    rw [h.kind ht]
    split
    · refine .bind h.next fun _ _ _ => .bind peek fun second second' hsecond => ?_
      cases hsecond with
      | none => exact .pure rfl
      | some ht' =>
        dsimp only
        rw [h.kind ht']
        exact .pure rfl
    · exact .pure rfl

end Companions

end QLanguage
