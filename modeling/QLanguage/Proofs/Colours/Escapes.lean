import QLanguage.Proofs.Debug.Printable
import QLanguage.Proofs.Reading.Parallel

/-!
# Texts without escapes

Every terminal sequence starts with the escape character, so in a text without that character none
can be mistaken for one. `uncoloured` deletes the sequences that start and end paints, wherever they
stand. A text of which parts are painted that have no escapes themselves is a `Painting` of the text
without paint: what is left of it is that text, also in the middle of others.

The other lemmas say which texts have no escapes: printable texts, such as whatever is in quotes and
the digits of numbers, texts that are put together of such texts or cut out of them, and the trees
and lexemes whose names and strings have none.
-/

namespace QLanguage

/-! ## Texts -/

/-- The text has no escape character, and so no terminal sequence. -/
def EscapeFree (text : String) : Prop := '\x1b' ∉ text.toList

instance : DecidablePred EscapeFree := fun text =>
  inferInstanceAs (Decidable ('\x1b' ∉ text.toList))

/-- A text without characters has no escapes. -/
theorem escapeFree_empty : EscapeFree "" := by decide

/-- Two texts have no escapes together when neither has one. -/
@[simp] theorem escapeFree_append {a b : String} :
    EscapeFree (a ++ b) ↔ EscapeFree a ∧ EscapeFree b := by
  simp [EscapeFree]

/-- A text made of characters has no escape when they have none. -/
@[simp] theorem escapeFree_ofList {cs : List Char} :
    EscapeFree (String.ofList cs) ↔ '\x1b' ∉ cs := by
  simp [EscapeFree]

/-- What is made of characters of a text without escapes has none. -/
theorem EscapeFree.ofList {text : String} (h : EscapeFree text) {cs : List Char}
    (hcs : cs ⊆ text.toList) : EscapeFree (String.ofList cs) :=
  escapeFree_ofList.2 fun hescape => h (hcs hescape)

/-- A printable text has no escapes. -/
theorem Printable.escapeFree {text : String} (h : Printable text) : EscapeFree text :=
  fun hescape => absurd (h _ hescape) (by decide)

/-- Digits are no escapes. -/
theorem escape_notMem_toDigits {base : Nat} (hbase : 1 < base) (n : Nat) :
    '\x1b' ∉ Nat.toDigits base n :=
  fun hescape => absurd (isPrintable_of_mem_toDigits hbase hescape) (by decide)

/-- A number has no escapes. -/
@[simp] theorem escapeFree_repr (n : Nat) : EscapeFree n.repr :=
  escapeFree_ofList.2 (escape_notMem_toDigits (by decide) n)

/-- A number with a sign has no escapes. -/
@[simp] theorem escapeFree_intRepr (n : Int) : EscapeFree n.repr := by
  cases n with
  | ofNat n => exact escapeFree_repr n
  | negSucc n => exact escapeFree_append.2 ⟨by decide, escapeFree_repr (n + 1)⟩

/-- A text in quotes has no escapes, whatever the text has. -/
@[simp] theorem escapeFree_quoted (text : String) : EscapeFree (quoted text) :=
  (printable_quoted text).escapeFree

/-- Texts in a row have no escapes when none of them and not the separator has one. -/
theorem escapeFree_intercalate {separator : String} (hseparator : EscapeFree separator)
    {texts : List String} (h : ∀ text ∈ texts, EscapeFree text) :
    EscapeFree (separator.intercalate texts) := by
  intro hescape
  rcases mem_toList_intercalate hescape with hmem | ⟨text, htext, hmem⟩
  · exact hseparator hmem
  · exact h text htext hmem

/-- A text without the blanks at its ends has no escape that it had not before. -/
theorem EscapeFree.stripBlanks {text : String} (h : EscapeFree text) :
    EscapeFree (stripBlanks text) := by
  refine h.ofList fun c hc => ?_
  have hback := (List.dropWhile_sublist _).mem (List.mem_reverse.1 hc)
  exact (List.dropWhile_sublist _).mem (List.mem_reverse.1 hback)

/-! ## Numbers -/

/-- The texts of a layout have no escapes. -/
structure NumberLayout.Clean (layout : NumberLayout) : Prop where
  /-- What follows a whole number. -/
  wholeSuffix : EscapeFree layout.wholeSuffix
  /-- The mark before the exponent. -/
  exponentMark : EscapeFree layout.exponentMark
  /-- The text of an infinity. -/
  infinity : EscapeFree layout.infinity
  /-- The text of what is no number. -/
  notNumber : EscapeFree layout.notNumber

namespace NumberLayout.Clean

variable {layout : NumberLayout} {digits : List Char}

/-- Digits that are laid out positionally have no escapes. -/
theorem positional (h : layout.Clean) (hdigits : '\x1b' ∉ digits) (top : Int) :
    EscapeFree (layout.positional digits top) := by
  have htake : ∀ n, '\x1b' ∉ digits.take n := fun n hmem => hdigits (List.mem_of_mem_take hmem)
  have hdrop : ∀ n, '\x1b' ∉ digits.drop n := fun n hmem => hdigits (List.mem_of_mem_drop hmem)
  have hlead : EscapeFree "0." := by decide
  have hpoint : EscapeFree "." := by decide
  unfold NumberLayout.positional
  split_ifs
  · simp [hlead, hdigits, List.mem_replicate]
  · dsimp only
    split_ifs
    · simp [h.wholeSuffix, hdigits, List.mem_replicate]
    · simp [hpoint, htake, hdrop]

/-- Digits that are laid out with an exponent have no escapes. -/
theorem scientific (h : layout.Clean) (hdigits : '\x1b' ∉ digits) (top : Int) :
    EscapeFree (layout.scientific digits top) := by
  have htake : '\x1b' ∉ digits.take 1 := fun hmem => hdigits (List.mem_of_mem_take hmem)
  have hfraction :
      EscapeFree (if digits.length ≤ 1 then "" else "." ++ String.ofList (digits.drop 1)) := by
    split_ifs
    · decide
    · refine escapeFree_append.2 ⟨by decide, escapeFree_ofList.2 fun hmem => ?_⟩
      exact hdigits (List.mem_of_mem_drop hmem)
  have hsign : EscapeFree (if top < 0 then "-" else "+") := by split_ifs <;> decide
  have hexponent : EscapeFree (padded layout.exponentWidth top.natAbs) := by
    simpa [padded, List.mem_replicate] using escape_notMem_toDigits (by decide) top.natAbs
  unfold NumberLayout.scientific
  simp only [escapeFree_append, escapeFree_ofList]
  exact ⟨⟨⟨⟨htake, hfraction⟩, h.exponentMark⟩, hsign⟩, hexponent⟩

/-- A number without its sign has no escapes. -/
theorem magnitude (h : layout.Clean) (d : Decimal) : EscapeFree (layout.magnitude d) := by
  have hdigits := escape_notMem_toDigits (by decide : 1 < 10) d.digits
  unfold NumberLayout.magnitude
  dsimp only
  split
  · exact h.positional hdigits _
  · exact h.scientific hdigits _

/-- A number that is laid out has no escapes. -/
theorem text (h : layout.Clean) (value : Binary64) : EscapeFree (layout.text value) := by
  have hsign : ∀ negative : Bool, EscapeFree (if negative then "-" else "") := by decide
  cases value with
  | nan => exact h.notNumber
  | infinite negative => exact escapeFree_append.2 ⟨hsign negative, h.infinity⟩
  | finite negative mantissa exponent =>
    exact escapeFree_append.2 ⟨hsign negative, h.magnitude _⟩

end NumberLayout.Clean

/-! ## Trees -/

mutual

/-- An expression whose texts have no escapes has none in source form. -/
theorem Expr.Texts.escapeFree_source :
    ∀ {e : Expr}, e.Texts EscapeFree → EscapeFree e.source
  | .string text, h => by
    have hmark : EscapeFree "\"" := by decide
    have htext : EscapeFree text := by rwa [Expr.Texts] at h
    simp [Expr.source, hmark, htext]
  | .variable name, h => by
    rw [Expr.Texts] at h
    rwa [Expr.source]
  | .call name args, h => by
    rw [Expr.Texts] at h
    have hmarks : EscapeFree "(" ∧ EscapeFree ")" := by decide
    have hargs := escapeFree_intercalate (by decide : EscapeFree ", ") h.2.escapeFree_sources
    simp [Expr.source, hmarks, h.1, hargs]
  | .function first others, h => by
    rw [Expr.Texts] at h
    rw [Expr.source]
    exact escapeFree_intercalate (by decide)
      (List.forall_mem_cons.2 ⟨h.1.escapeFree_source, h.2.escapeFree_sources⟩)

/-- Expressions whose texts have no escapes have none in source form. -/
theorem Expr.AllTexts.escapeFree_sources :
    ∀ {es : List Expr}, Expr.AllTexts EscapeFree es → ∀ text ∈ Expr.sources es, EscapeFree text
  | [], _ => by simp [Expr.sources]
  | e :: es, h => by
    rw [Expr.AllTexts] at h
    exact List.forall_mem_cons.2 ⟨h.1.escapeFree_source, h.2.escapeFree_sources⟩

/-- A pattern whose texts have no escapes has none in source form. -/
theorem Pattern.Texts.escapeFree_source :
    ∀ {p : Pattern}, p.Texts EscapeFree → EscapeFree p.source
  | .bind name, h => by
    rw [Pattern.Texts] at h
    rwa [Pattern.source]
  | .wildcard, _ => by
    rw [Pattern.source]
    decide
  | .literal value, h => by
    rw [Pattern.Texts] at h
    rw [Pattern.source]
    exact h.escapeFree_source

/-- Patterns whose texts have no escapes have none in source form. -/
theorem Pattern.AllTexts.escapeFree_sources :
    ∀ {ps : List Pattern}, Pattern.AllTexts EscapeFree ps →
      ∀ text ∈ Pattern.sources ps, EscapeFree text
  | [], _ => by simp [Pattern.sources]
  | p :: ps, h => by
    rw [Pattern.AllTexts] at h
    exact List.forall_mem_cons.2 ⟨h.1.escapeFree_source, h.2.escapeFree_sources⟩

/-- A clause whose texts have no escapes has none in source form. -/
theorem Clause.Texts.escapeFree_source :
    ∀ {c : Clause}, c.Texts EscapeFree → EscapeFree c.source
  | .mk patterns body, h => by
    rw [Clause.Texts] at h
    have hmarks : EscapeFree "(" ∧ EscapeFree ") \x7b " ∧ EscapeFree " \x7d" := by decide
    have hpatterns := escapeFree_intercalate (by decide : EscapeFree ", ") h.1.escapeFree_sources
    simp [Clause.source, hmarks, hpatterns, h.2.escapeFree_source]

/-- Clauses whose texts have no escapes have none in source form. -/
theorem Clause.AllTexts.escapeFree_sources :
    ∀ {cs : List Clause}, Clause.AllTexts EscapeFree cs →
      ∀ text ∈ Clause.sources cs, EscapeFree text
  | [], _ => by simp [Clause.sources]
  | c :: cs, h => by
    rw [Clause.AllTexts] at h
    exact List.forall_mem_cons.2 ⟨h.1.escapeFree_source, h.2.escapeFree_sources⟩

end

/-! ## Deleting the sequences of paints -/

/-- The characters without the sequences that start and end paints. -/
def uncolouredChars : List Char → List Char
  | '\x1b' :: '[' :: '1' :: 'm' :: rest => uncolouredChars rest
  | '\x1b' :: '[' :: '3' :: '1' :: 'm' :: rest => uncolouredChars rest
  | '\x1b' :: '[' :: '3' :: '5' :: 'm' :: rest => uncolouredChars rest
  | '\x1b' :: '[' :: '0' :: 'm' :: rest => uncolouredChars rest
  | c :: rest => c :: uncolouredChars rest
  | [] => []

/-- The text without the sequences that start and end paints. -/
def uncoloured (text : String) : String := String.ofList (uncolouredChars text.toList)

/-- Text without escapes stays. -/
theorem uncolouredChars_append {cs : List Char} (h : '\x1b' ∉ cs) (rest : List Char) :
    uncolouredChars (cs ++ rest) = cs ++ uncolouredChars rest := by
  induction cs with
  | nil => rfl
  | cons c cs ih =>
    obtain ⟨hc, hcs⟩ := not_or.1 (mt List.mem_cons.2 h)
    have hkept : uncolouredChars (c :: (cs ++ rest)) = c :: uncolouredChars (cs ++ rest) := by
      rw [uncolouredChars] <;> exact fun _ hescape => absurd hescape.symm hc
    rw [List.cons_append, hkept, ih hcs, List.cons_append]

/-- The start of a paint goes. -/
theorem uncolouredChars_start (paint : Paint) (rest : List Char) :
    uncolouredChars (paint.start.toList ++ rest) = uncolouredChars rest := by
  cases paint <;> rfl

/-- The end of a paint goes. -/
theorem uncolouredChars_reset (rest : List Char) :
    uncolouredChars (Paint.reset.toList ++ rest) = uncolouredChars rest := rfl

/-! ## Painted texts -/

/-- The first text is the second one with paint on parts of it: what is left of it when the
sequences of paints are deleted is the second text, whatever stands behind it. -/
def Painting (coloured plain : String) : Prop :=
  ∀ rest, uncolouredChars (coloured.toList ++ rest) = plain.toList ++ uncolouredChars rest

/-- What is left of a text with paint on it. -/
theorem Painting.uncoloured_eq {coloured plain : String} (h : Painting coloured plain) :
    uncoloured coloured = plain := by
  have hchars := h []
  rw [List.append_nil, uncolouredChars, List.append_nil] at hchars
  rw [uncoloured, hchars, String.ofList_toList]

/-- A text without escapes is itself without paint. -/
theorem EscapeFree.painting {text : String} (h : EscapeFree text) : Painting text text :=
  uncolouredChars_append h

/-- A text that stands out is what it is without colours, with paint on it. -/
theorem EscapeFree.painted {text : String} (h : EscapeFree text) (paint : Paint) :
    Painting (painted true paint text) (painted false paint text) := by
  intro rest
  have hpainted : (QLanguage.painted true paint text).toList ++ rest =
      paint.start.toList ++ (text.toList ++ (Paint.reset.toList ++ rest)) := by
    simp [QLanguage.painted]
  rw [hpainted, uncolouredChars_start, uncolouredChars_append h, uncolouredChars_reset]
  rfl

/-- Texts with paint on them are so together. -/
theorem Painting.append {a a' b b' : String} (h : Painting a a') (h' : Painting b b') :
    Painting (a ++ b) (a' ++ b') := by
  intro rest
  rw [String.toList_append, String.toList_append, List.append_assoc, h, h', List.append_assoc]

/-- The texts are the others one by one, with paint on parts of them. -/
abbrev Paintings (coloured plain : List String) : Prop := List.Forall₂ Painting coloured plain

namespace Paintings

/-- One after another, the texts are one text with paint on it. -/
theorem join {coloured plain : List String} (h : Paintings coloured plain) :
    Painting (String.join coloured) (String.join plain) := by
  induction h with
  | nil => exact escapeFree_empty.painting
  | cons h _ ih =>
    rw [String.join_cons, String.join_cons]
    exact h.append ih

end Paintings

end QLanguage
