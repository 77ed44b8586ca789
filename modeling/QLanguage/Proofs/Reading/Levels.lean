import QLanguage.Proofs.Steps
import QLanguage.Reading.Module

/-!
# More levels change no finished reading

A reading that does not stop for want of levels gives the same with more of them. The parts of the
reader agree when the readings they are made of do, and the reading of expressions follows by
induction on the levels.
-/

namespace QLanguage.Reading

variable {α : Type}

/-- Two readings do the same unless the first stops for want of levels. -/
abbrev AgreesUnlessDeep (reading reading' : Reading α) : Prop :=
  Step.AgreesUnless Stop.tooDeep reading reading'

/-! ## Rows -/

section Rows

variable {mark : Punct} {item item' : Reading α}

/-- Items behind marks agree when one item does. -/
theorem agrees_itemsAfter (h : AgreesUnlessDeep item item') (fuel : Nat) :
    AgreesUnlessDeep (itemsAfter mark item fuel) (itemsAfter mark item' fuel) := by
  induction fuel with
  | zero => exact .refl _
  | succ fuel ih =>
    refine Step.AgreesUnless.bind (.refl _) fun accepted => ?_
    cases accepted with
    | false => exact .refl _
    | true => exact Step.AgreesUnless.bind h fun _ => Step.AgreesUnless.bind ih fun _ => .refl _

/-- Rows agree when one item does. -/
theorem agrees_row (h : AgreesUnlessDeep item item') :
    AgreesUnlessDeep (row mark item) (row mark item') := by
  refine Step.AgreesUnless.bind h fun first => ?_
  refine Step.AgreesUnless.bind (.refl _) fun cursor => ?_
  exact Step.AgreesUnless.bind (agrees_itemsAfter h _) fun _ => .refl _

/-- What stands between parentheses agrees when one item does. -/
theorem agrees_parenthesised (h : AgreesUnlessDeep item item') :
    AgreesUnlessDeep (parenthesised item) (parenthesised item') := by
  refine Step.AgreesUnless.bind (.refl _) fun accepted => ?_
  cases accepted with
  | true => exact .refl _
  | false => exact Step.AgreesUnless.bind (agrees_row h) fun _ => .refl _

end Rows

/-! ## Expressions -/

section Expressions

variable {expression expression' : Reading Expr}

/-- Clauses agree when their bodies do. -/
theorem agrees_clause (h : AgreesUnlessDeep expression expression') :
    AgreesUnlessDeep (clause expression) (clause expression') := by
  refine Step.AgreesUnless.bind (.refl _) fun patterns => ?_
  refine Step.AgreesUnless.bind (.refl _) fun brace => ?_
  exact Step.AgreesUnless.bind h fun _ => .refl _

/-- Functions agree when their bodies do. -/
theorem agrees_function (h : AgreesUnlessDeep expression expression') :
    AgreesUnlessDeep (function expression) (function expression') := by
  have hclause := agrees_clause h
  refine Step.AgreesUnless.bind hclause fun first => ?_
  refine Step.AgreesUnless.bind (.refl _) fun cursor => ?_
  refine Step.AgreesUnless.bind (agrees_itemsAfter ?_ _) fun _ => .refl _
  exact Step.AgreesUnless.bind (.refl _) fun _ => hclause

end Expressions

/-- One more level changes no finished reading of an expression. -/
theorem agrees_expression_succ (depth : Nat) :
    AgreesUnlessDeep (expression depth) (expression (depth + 1)) := by
  induction depth with
  | zero => exact .throw _
  | succ depth ih =>
    -- The first token decides between a string, a name, a function and nothing of these.
    refine Step.AgreesUnless.bind (.refl _) fun token => ?_
    split
    · exact .refl _
    · refine Step.AgreesUnless.bind (.refl _) fun accepted => ?_
      cases accepted with
      | false => exact .refl _
      | true => exact Step.AgreesUnless.bind (agrees_parenthesised ih) fun _ => .refl _
    · exact agrees_function ih
    · exact .refl _

/-- More levels change no finished reading of an expression. -/
theorem agrees_expression {depth depth' : Nat} (h : depth ≤ depth') :
    AgreesUnlessDeep (expression depth) (expression depth') := by
  induction h with
  | refl => exact .refl _
  | step _ ih => exact ih.trans (agrees_expression_succ _)

/-! ## Modules -/

section Modules

variable {depth depth' : Nat}

/-- More levels change no finished reading of a value. -/
theorem agrees_value (h : depth ≤ depth') (sourceName source name : String) :
    AgreesUnlessDeep (value depth sourceName source name)
      (value depth' sourceName source name) := by
  refine Step.AgreesUnless.bind (.refl _) fun found => ?_
  cases found with
  | none => exact .refl _
  | some token =>
    dsimp only
    split
    · exact agrees_expression h
    · exact .refl _

/-- More levels change no finished reading of a declaration. -/
theorem agrees_declaration (h : depth ≤ depth') (sourceName source : String) :
    AgreesUnlessDeep (declaration depth sourceName source)
      (declaration depth' sourceName source) := by
  refine Step.AgreesUnless.bind (.refl _) fun head => ?_
  split
  · refine Step.AgreesUnless.bind (.refl _) fun mark => ?_
    refine Step.AgreesUnless.bind ?_ fun _ => .refl _
    -- Recovery passes the want of levels on and does not skip for it.
    exact Step.AgreesUnless.tryCatch (agrees_value h sourceName source _) fun _ => rfl
  · exact .refl _

/-- More levels change no finished reading of declarations. -/
theorem agrees_entriesWithin (h : depth ≤ depth') (sourceName source : String) (fuel : Nat) :
    AgreesUnlessDeep (entriesWithin depth sourceName source fuel)
      (entriesWithin depth' sourceName source fuel) := by
  induction fuel with
  | zero => exact .refl _
  | succ fuel ih =>
    refine Step.AgreesUnless.bind (.refl _) fun found => ?_
    cases found with
    | none => exact .refl _
    | some token =>
      refine Step.AgreesUnless.bind ?_ fun entry => Step.AgreesUnless.bind ih fun _ => .refl _
      -- Neither does it become a recorded diagnostic.
      refine Step.AgreesUnless.tryCatch ?_ fun _ => rfl
      exact Step.AgreesUnless.bind (agrees_declaration h sourceName source) fun _ => .refl _

end Modules

end QLanguage.Reading

namespace QLanguage

/-- A module is read as with more levels, unless they do not suffice. -/
theorem parseModule_tooDeep_or {depth depth' : Nat} (h : depth ≤ depth') (name source : String) :
    parseModule depth name source = .error .tooDeep ∨
      parseModule depth name source = parseModule depth' name source := by
  have hagrees : Reading.AgreesUnlessDeep (Reading.entries depth name source)
      (Reading.entries depth' name source) :=
    Step.AgreesUnless.bind (.refl _) fun _ => Reading.agrees_entriesWithin h name source _
  unfold parseModule
  rcases hagrees (Cursor.ofSource source) with hdeep | heq
  · left
    rw [hdeep]
    rfl
  · right
    rw [heq]

/-- More levels change no finished reading of a module. -/
theorem parseModule_levels {depth depth' : Nat} (h : depth ≤ depth') {name source : String}
    {parsed : Parsed} (hparse : parseModule depth name source = .ok parsed) :
    parseModule depth' name source = .ok parsed := by
  rcases parseModule_tooDeep_or h name source with hdeep | heq
  · rw [hparse] at hdeep
    cases hdeep
  · rw [← heq, hparse]

/-- What a module is read as with levels enough, it is read as with any, unless they do not
suffice. -/
theorem parseModule_ok_or_tooDeep {enough : Nat} {name source : String} {parsed : Parsed}
    (h : ∀ depth, enough ≤ depth → parseModule depth name source = .ok parsed) (depth : Nat) :
    parseModule depth name source = .ok parsed ∨
      parseModule depth name source = .error .tooDeep := by
  rcases parseModule_tooDeep_or (Nat.le_max_left depth enough) name source with hdeep | heq
  · exact .inr hdeep
  · left
    rw [heq]
    exact h _ (Nat.le_max_right depth enough)

end QLanguage
