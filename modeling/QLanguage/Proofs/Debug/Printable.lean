import QLanguage.Proofs.Debug.Quotes
import QLanguage.Tree.Debug

/-!
# Debug forms are printable

A text in quotes has printable characters only: every other character is spelled, and what spells it
is printable. The rest of a debug form is names of nodes and fields and the marks between them, so
the debug form of every tree is printable, whatever texts the tree holds. In particular it has no
line ends and no terminal sequences.
-/

namespace QLanguage

/-! ## Printable texts -/

/-- All characters of the text are printable. -/
def Printable (text : String) : Prop := ∀ c ∈ text.toList, isPrintable c = true

instance : DecidablePred Printable := fun text =>
  decidable_of_iff (text.toList.all isPrintable = true) List.all_eq_true

/-- Two texts are printable together when both are. -/
@[simp] theorem printable_append {a b : String} :
    Printable (a ++ b) ↔ Printable a ∧ Printable b := by
  simp [Printable, or_imp, forall_and]

/-- Texts in a row are printable when each of them and the separator is. -/
theorem printable_intercalate {separator : String} (hseparator : Printable separator)
    {texts : List String} (h : ∀ text ∈ texts, Printable text) :
    Printable (separator.intercalate texts) := by
  intro c hc
  rcases mem_toList_intercalate hc with hmem | ⟨text, htext, hmem⟩
  · exact hseparator c hmem
  · exact h text htext c hmem

/-- A row in debug form is printable when its entries are. -/
theorem printable_tupleText {texts : List String} (h : ∀ text ∈ texts, Printable text) :
    Printable (tupleText texts) := by
  have hrow := printable_intercalate (by decide : Printable ", ") h
  unfold tupleText
  split
  · decide
  · have hsingle := h _ List.mem_cons_self
    have hmarks : Printable "(" ∧ Printable ",)" := by decide
    simp [hsingle, hmarks]
  · have hmarks : Printable "(" ∧ Printable ")" := by decide
    simp [hrow, hmarks]

/-- A list in debug form is printable when its entries are. -/
theorem printable_listText {texts : List String} (h : ∀ text ∈ texts, Printable text) :
    Printable (listText texts) := by
  have hrow := printable_intercalate (by decide : Printable ", ") h
  have hmarks : Printable "[" ∧ Printable "]" := by decide
  simp [listText, hrow, hmarks]

/-! ## Quoted texts -/

/-- Digits are printable. -/
theorem isPrintable_of_mem_toDigits {base : Nat} (hbase : 1 < base) {n : Nat} {c : Char}
    (h : c ∈ Nat.toDigits base n) : isPrintable c = true := by
  have hsmall : ∀ d < 16, isPrintable (Nat.digitChar d) = true := by decide
  have hdigit : ∀ d, isPrintable (Nat.digitChar d) = true := by
    intro d
    rcases Nat.lt_or_ge d 16 with hlt | hge
    · exact hsmall d hlt
    · rw [Nat.digitChar_eq_star.2 hge]
      decide
  induction n using Nat.strongRecOn with
  | ind n ih =>
    rw [Nat.toDigits_eq_if hbase] at h
    split at h
    · exact List.mem_singleton.1 h ▸ hdigit n
    · next hlarge =>
      have hsmaller : n / base < n := Nat.div_lt_self (by omega) hbase
      rcases List.mem_append.1 h with hfront | hlast
      · exact ih _ hsmaller hfront
      · exact List.mem_singleton.1 hlast ▸ hdigit _

/-- An escape is printable. -/
theorem IsEscape.printable {letter c : Char} {digits : List Char} (h : IsEscape letter digits c) :
    isPrintable letter = true ∧ ∀ d ∈ digits, isPrintable d = true := by
  have hletters : (escapeLetters ++ spellingLetters).all isPrintable = true := by decide
  rw [List.all_append, Bool.and_eq_true, List.all_eq_true, List.all_eq_true] at hletters
  cases h with
  | mark hletter => exact ⟨hletters.1 _ hletter, fun d hd => absurd hd List.not_mem_nil⟩
  | spelling hletter _ =>
    refine ⟨hletters.2 _ hletter, fun d hd => ?_⟩
    rcases List.mem_append.1 hd with hzero | hdigit
    · rw [List.eq_of_mem_replicate hzero]
      decide
    · exact isPrintable_of_mem_toDigits (by decide) hdigit

/-- What stands for a character inside quotes is printable. -/
theorem isPrintable_of_mem_escaped {quote c d : Char}
    (hquote : quote ∈ [apostrophe, quotationMark]) (h : d ∈ escaped quote c) :
    isPrintable d = true := by
  obtain ⟨hself, -, -, hprintable⟩ | ⟨letter, digits, hstands, hescape⟩ := escaped_cases hquote c
  · rw [hself, List.mem_singleton] at h
    rwa [h]
  · rw [hescape, List.mem_cons, List.mem_cons] at h
    rcases h with rfl | rfl | hdigit
    · decide
    · exact hstands.printable.1
    · exact hstands.printable.2 d hdigit

/-- A text in quotes is printable, whatever the text has. -/
@[simp] theorem printable_quoted (text : String) : Printable (quoted text) := by
  have hquotes : [apostrophe, quotationMark].all isPrintable = true := by decide
  have hmem := quoteOf_mem text.toList
  have hquote : isPrintable (quoteOf text.toList) = true := List.all_eq_true.1 hquotes _ hmem
  intro c hc
  rw [toList_quoted, List.mem_cons, List.mem_append, List.mem_flatMap, List.mem_singleton] at hc
  rcases hc with rfl | ⟨d, -, hd⟩ | rfl
  · exact hquote
  · exact isPrintable_of_mem_escaped hmem hd
  · exact hquote

/-! ## Trees -/

/-- A clause in debug form, from its parts. -/
theorem Clause.debug_mk (patterns : List Pattern) (body : Expr) :
    (Clause.mk patterns body).debug =
      "FunClause(args=" ++ tupleText (Pattern.debugs patterns) ++ ", body=" ++ body.debug ++ ")" :=
  rfl

/-- A name in debug form is printable. -/
@[simp] theorem printable_nameDebug (name : String) : Printable (nameDebug name) := by
  have hmarks : Printable "Id(name=" ∧ Printable ")" := by decide
  simp [nameDebug, hmarks]

mutual

/-- An expression in debug form is printable: its texts are in quotes. -/
theorem Expr.printable_debug : ∀ e : Expr, Printable e.debug
  | .string text => by
    have hmarks : Printable "LiteralString(value=" ∧ Printable ")" := by decide
    unfold Expr.debug
    simp [hmarks]
  | .variable name => by
    have hmarks : Printable "Variable(id=" ∧ Printable ")" := by decide
    unfold Expr.debug
    simp [hmarks]
  | .call name args => by
    have hmarks : Printable "Call(id=" ∧ Printable ", args=" ∧ Printable ")" := by decide
    have hargs := printable_tupleText (Expr.printable_debugs args)
    unfold Expr.debug
    simp [hmarks, hargs]
  | .function first others => by
    have hmarks : Printable "Function(clauses=" ∧ Printable ")" := by decide
    have hclauses := printable_tupleText
      (List.forall_mem_cons.2 ⟨first.printable_debug, Clause.printable_debugs others⟩)
    unfold Expr.debug
    simp [hmarks, hclauses]

/-- Expressions in debug form are printable. -/
theorem Expr.printable_debugs : ∀ es : List Expr, ∀ text ∈ Expr.debugs es, Printable text
  | [] => by simp [Expr.debugs]
  | e :: es => List.forall_mem_cons.2 ⟨e.printable_debug, Expr.printable_debugs es⟩

/-- A pattern in debug form is printable. -/
theorem Pattern.printable_debug : ∀ p : Pattern, Printable p.debug
  | .bind name => by
    have hmarks : Printable "Bind(id=" ∧ Printable ")" := by decide
    unfold Pattern.debug
    simp [hmarks]
  | .wildcard => by
    have hmark : Printable "Wildcard()" := by decide
    unfold Pattern.debug
    exact hmark
  | .literal value => by
    have hmarks : Printable "Literal(value=" ∧ Printable ")" := by decide
    unfold Pattern.debug
    simp [hmarks, value.printable_debug]

/-- Patterns in debug form are printable. -/
theorem Pattern.printable_debugs :
    ∀ ps : List Pattern, ∀ text ∈ Pattern.debugs ps, Printable text
  | [] => by simp [Pattern.debugs]
  | p :: ps => List.forall_mem_cons.2 ⟨p.printable_debug, Pattern.printable_debugs ps⟩

/-- A clause in debug form is printable. -/
theorem Clause.printable_debug : ∀ c : Clause, Printable c.debug
  | .mk patterns body => by
    have hmarks : Printable "FunClause(args=" ∧ Printable ", body=" ∧ Printable ")" := by
      decide
    have hpatterns := printable_tupleText (Pattern.printable_debugs patterns)
    rw [Clause.debug_mk]
    simp [hmarks, hpatterns, body.printable_debug]

/-- Clauses in debug form are printable. -/
theorem Clause.printable_debugs : ∀ cs : List Clause, ∀ text ∈ Clause.debugs cs, Printable text
  | [] => by simp [Clause.debugs]
  | c :: cs => List.forall_mem_cons.2 ⟨c.printable_debug, Clause.printable_debugs cs⟩

end

end QLanguage
