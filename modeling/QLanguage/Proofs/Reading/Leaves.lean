import QLanguage.Proofs.Reading.Cursor
import QLanguage.Reading.Module

/-!
# Reading only goes forward

However a reading ends, it leaves a suffix of the lexemes that were left before it. So whatever is
true of all tokens of a source stays true of what recovery leaves of it.
-/

namespace QLanguage.Reading

variable {α : Type}

/-! ## Rows -/

section Rows

variable {mark : Punct} {item : Reading α}

/-- Items behind marks leave a suffix when one item does. -/
theorem keeps_itemsAfter (h : Step.Keeps Cursor.Leaves item) (fuel : Nat) :
    Step.Keeps Cursor.Leaves (itemsAfter mark item fuel) := by
  induction fuel with
  | zero => exact .pure _
  | succ fuel ih =>
    refine Step.Keeps.bind (keeps_accept mark) fun accepted => ?_
    cases accepted with
    | false => exact .pure _
    | true => exact Step.Keeps.bind h fun _ => Step.Keeps.bind ih fun _ => .pure _

/-- A row leaves a suffix when one item does. -/
theorem keeps_row (h : Step.Keeps Cursor.Leaves item) :
    Step.Keeps Cursor.Leaves (row mark item) := by
  refine Step.Keeps.bind h fun first => ?_
  refine Step.Keeps.bind .get fun cursor => ?_
  exact Step.Keeps.bind (keeps_itemsAfter h _) fun _ => .pure _

/-- What stands between parentheses leaves a suffix when one item does. -/
theorem keeps_parenthesised (h : Step.Keeps Cursor.Leaves item) :
    Step.Keeps Cursor.Leaves (parenthesised item) := by
  refine Step.Keeps.bind (keeps_accept _) fun accepted => ?_
  cases accepted with
  | true => exact .pure _
  | false =>
    refine Step.Keeps.bind (keeps_row h) fun items => ?_
    exact Step.Keeps.bind (keeps_expect _) fun _ => .pure _

end Rows

/-! ## Expressions -/

/-- A pattern leaves a suffix. -/
theorem keeps_pattern : Step.Keeps Cursor.Leaves pattern := by
  refine Step.Keeps.bind keeps_next fun token => ?_
  split
  · exact .pure _
  · exact .throw _

section Expressions

variable {expression : Reading Expr}

/-- A clause leaves a suffix when its body does. -/
theorem keeps_clause (h : Step.Keeps Cursor.Leaves expression) :
    Step.Keeps Cursor.Leaves (clause expression) := by
  refine Step.Keeps.bind (keeps_parenthesised keeps_pattern) fun patterns => ?_
  refine Step.Keeps.bind (keeps_expect _) fun brace => ?_
  refine Step.Keeps.bind h fun body => ?_
  exact Step.Keeps.bind (keeps_expect _) fun _ => .pure _

/-- A function leaves a suffix when its bodies do. -/
theorem keeps_function (h : Step.Keeps Cursor.Leaves expression) :
    Step.Keeps Cursor.Leaves (function expression) := by
  have hclause := keeps_clause h
  refine Step.Keeps.bind hclause fun first => ?_
  refine Step.Keeps.bind .get fun cursor => ?_
  refine Step.Keeps.bind (keeps_itemsAfter ?_ _) fun _ => .pure _
  exact Step.Keeps.bind (keeps_expect _) fun _ => hclause

end Expressions

/-- An expression leaves a suffix. -/
theorem keeps_expression (depth : Nat) : Step.Keeps Cursor.Leaves (expression depth) := by
  induction depth with
  | zero => exact .throw _
  | succ depth ih =>
    refine Step.Keeps.bind keeps_next fun token => ?_
    split
    · exact .pure _
    · refine Step.Keeps.bind (keeps_accept _) fun accepted => ?_
      cases accepted with
      | false => exact .pure _
      | true => exact Step.Keeps.bind (keeps_parenthesised ih) fun _ => .pure _
    · exact keeps_function ih
    · exact .throw _

/-! ## Modules -/

/-- Looking for a declaration changes nothing. -/
theorem keeps_atDeclaration : Step.Keeps Cursor.Leaves atDeclaration := by
  refine Step.Keeps.bind .get fun cursor => ?_
  split
  · exact .pure _
  · split
    · exact .throw _
    · exact .pure _
  · exact .pure _

/-- Skipping leaves a suffix. -/
theorem keeps_skipWithin (fuel : Nat) : Step.Keeps Cursor.Leaves (skipWithin fuel) := by
  induction fuel with
  | zero => exact .pure _
  | succ fuel ih =>
    refine Step.Keeps.bind keeps_peek fun found => ?_
    cases found with
    | none => exact .pure _
    | some token =>
      refine Step.Keeps.bind keeps_atDeclaration fun reached => ?_
      cases reached with
      | true => exact .pure _
      | false => exact Step.Keeps.bind keeps_next fun _ => ih

/-- Skipping to the next declaration leaves a suffix. -/
theorem keeps_skipToDeclaration : Step.Keeps Cursor.Leaves skipToDeclaration :=
  Step.Keeps.bind .get fun _ => keeps_skipWithin _

/-- A value leaves a suffix. -/
theorem keeps_value (depth : Nat) (sourceName source name : String) :
    Step.Keeps Cursor.Leaves (value depth sourceName source name) := by
  refine Step.Keeps.bind keeps_peek fun found => ?_
  cases found with
  | none => exact Step.Keeps.bind .get fun _ => .throw _
  | some token =>
    dsimp only
    split
    · exact keeps_expression depth
    · exact Step.Keeps.bind keeps_next fun _ => .throw _

/-- A reading that may skip leaves a suffix when the reading does. -/
theorem keeps_orSkip {reading : Reading α} (h : Step.Keeps Cursor.Leaves reading) :
    Step.Keeps Cursor.Leaves (orSkip reading) := by
  refine Step.Keeps.tryCatch h fun stop => ?_
  split
  · exact Step.Keeps.bind keeps_skipToDeclaration fun _ => .throw _
  · exact .throw _

/-- A declaration leaves a suffix. -/
theorem keeps_declaration (depth : Nat) (sourceName source : String) :
    Step.Keeps Cursor.Leaves (declaration depth sourceName source) := by
  refine Step.Keeps.bind keeps_next fun head => ?_
  split
  · refine Step.Keeps.bind (keeps_expect _) fun mark => ?_
    exact Step.Keeps.bind (keeps_orSkip (keeps_value depth sourceName source _)) fun _ => .pure _
  · exact Step.Keeps.bind keeps_skipToDeclaration fun _ => .throw _

/-- A recorded reading leaves a suffix when the reading does. -/
theorem keeps_recorded {reading : Reading α} (h : Step.Keeps Cursor.Leaves reading) :
    Step.Keeps Cursor.Leaves (recorded reading) := by
  refine Step.Keeps.tryCatch (Step.Keeps.bind h fun _ => .pure _) fun stop => ?_
  split
  · exact .pure _
  · exact .throw _

end QLanguage.Reading
