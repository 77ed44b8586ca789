import QLanguage.Proofs.Reading.Leaves
import QLanguage.Proofs.Reading.Levels

/-!
# Levels enough for a source

Every level that an expression nests takes a token, so with more levels than there are lexemes left
an expression is never refused for want of levels. It is read or refused for a token behind tokens
alone, or an integer is too long, and then it is the first of those that are left. Wherever a
reading comes upon that integer, in taking a token, in looking at the next one or, at a name, at the
one behind it, it stops for it. `Settles` says all of this of a reading, and it is closed under
taking readings in a row.
-/

namespace QLanguage

namespace Cursor

/-- All lexemes that are left are tokens. -/
def AllTokens (c : Cursor) : Prop := ∀ l ∈ c.rest, ∃ t, l = Lexed.token t

/-- Tokens are all tokens. -/
theorem allTokens_map (ts : List Token) (span : Span) (length : Nat) :
    (Cursor.mk (ts.map .token) span length).AllTokens := by
  intro l hl
  obtain ⟨t, -, rfl⟩ := List.mem_map.mp hl
  exact ⟨t, rfl⟩

/-- Up to an integer of too many digits, the lexemes that are left are tokens. -/
def Meets (c : Cursor) (digits : Nat) : Prop :=
  ∃ (ts : List Token) (place : Span) (rest : List Lexed),
    c.rest = ts.map .token ++ .overlong digits place :: rest

/-- What a reading comes to between two cursors: a result or a diagnostic behind tokens, or the
first integer that is too long. -/
def Accounts {α : Type} (c c' : Cursor) : Except Stop α → Prop
  | .ok _ => ∃ ts, c.Moves ts c'
  | .error (.diagnostic _) => ∃ ts, c.Moves ts c'
  | .error (.overlong digits) => c.Meets digits
  | .error .tooDeep => False

/-- What a reading comes to behind tokens, it comes to with them in front. -/
theorem Accounts.after {α : Type} {c mid c' : Cursor} {ts : List Token} {result : Except Stop α}
    (hmoves : c.Moves ts mid) (h : mid.Accounts c' result) : c.Accounts c' result := by
  match result, h with
  | .ok a, ⟨ts', hmoves'⟩ => exact ⟨ts ++ ts', hmoves.trans hmoves'⟩
  | .error (.diagnostic d), ⟨ts', hmoves'⟩ => exact ⟨ts ++ ts', hmoves.trans hmoves'⟩
  | .error (.overlong digits), ⟨ts', place, rest, hrest⟩ =>
    refine ⟨ts ++ ts', place, rest, ?_⟩
    rw [hmoves.1, hrest, List.map_append, List.append_assoc]

/-- Behind tokens there is no more left than before. -/
theorem Moves.length_le {c c' : Cursor} {ts : List Token} (h : c.Moves ts c') :
    c'.rest.length ≤ c.rest.length := h.leaves.1.length_le

end Cursor

namespace Reading

variable {α β : Type} {n : Nat}

/-- Before at most `n` lexemes, the reading gives a result or a diagnostic behind tokens, or stops
for the first integer that is too long. -/
def Settles (n : Nat) (reading : Reading α) : Prop :=
  ∀ c : Cursor, c.rest.length ≤ n → c.Accounts (reading.run c).2 (reading.run c).1

namespace Settles

/-- A reading of its result alone settles. -/
theorem pure (a : α) : Settles n (Pure.pure a : Reading α) := fun c _ => ⟨[], .refl c⟩

/-- A diagnostic settles. -/
theorem throw (d : Diagnostic) : Settles n (throw (.diagnostic d) : Reading α) :=
  fun c _ => ⟨[], .refl c⟩

/-- Looking at the cursor settles. -/
theorem get : Settles n (get : Reading Cursor) := fun c _ => ⟨[], .refl c⟩

/-- Readings in a row settle when each of them does. -/
theorem bind {reading : Reading α} {next : α → Reading β} (hreading : Settles n reading)
    (hnext : ∀ a, Settles n (next a)) : Settles n (reading >>= next) := by
  intro c hlength
  have hfirst := hreading c hlength
  rcases hrun : reading.run c with ⟨stop | a, mid⟩ <;> rw [hrun] at hfirst
  · rw [Step.run_bind_error hrun]
    cases stop <;> exact hfirst
  · obtain ⟨ts, hmoves⟩ := hfirst
    rw [Step.run_bind_ok hrun]
    exact (hnext a mid (Nat.le_trans hmoves.length_le hlength)).after hmoves

/-- Behind the next token there is a lexeme less to settle before. -/
theorem afterNext {reading : Token → Reading α}
    (h : ∀ fewer, n = fewer + 1 → ∀ t, Settles fewer (reading t)) :
    Settles n (next >>= reading) := by
  rintro ⟨_ | ⟨t | ⟨digits, place⟩, rest⟩, span, length⟩ hlength
  · exact ⟨[], .refl _⟩
  · cases n with
    | zero => cases hlength
    | succ fewer =>
      rw [Step.run_bind_ok (run_next_token t rest span length)]
      have hmoves := run_next_ok (run_next_token t rest span length)
      exact (h fewer rfl t _ (Nat.le_of_succ_le_succ hlength)).after hmoves
  · exact ⟨[], place, rest, rfl⟩

/-- Where all that is left are tokens, only a diagnostic stops a reading that settles. -/
theorem exists_diagnostic {reading : Reading α} (h : Settles n reading) {c : Cursor}
    (htokens : c.AllTokens) (hlength : c.rest.length ≤ n) {stop : Stop}
    (hstop : (reading.run c).1 = .error stop) : ∃ d, stop = .diagnostic d := by
  have haccounts := h c hlength
  rw [hstop] at haccounts
  match stop, haccounts with
  | .diagnostic d, _ => exact ⟨d, rfl⟩
  | .overlong digits, ⟨ts, place, rest, hrest⟩ =>
    obtain ⟨t, ht⟩ := htokens (.overlong digits place) (by simp [hrest])
    cases ht

end Settles

/-! ## Tokens and marks -/

/-- Asking for a kind settles. -/
theorem settles_expect (kind : Kind) : Settles n (expect kind) := by
  refine Settles.afterNext fun _ _ t => ?_
  split
  · exact .pure t
  · exact .throw _

/-- Looking at the next token settles. -/
theorem settles_peek : Settles n peek := by
  rintro ⟨_ | ⟨t | ⟨digits, place⟩, rest⟩, span, length⟩ _
  · exact ⟨[], .refl _⟩
  · exact ⟨[], .refl _⟩
  · exact ⟨[], place, rest, rfl⟩

/-- Taking the next token settles. -/
theorem settles_next : Settles n next := by
  rintro ⟨_ | ⟨t | ⟨digits, place⟩, rest⟩, span, length⟩ _
  · exact ⟨[], .refl _⟩
  · exact ⟨[t], rfl, rfl⟩
  · exact ⟨[], place, rest, rfl⟩

/-- Accepting a mark settles. -/
theorem settles_accept (p : Punct) : Settles n (accept p) := by
  refine Settles.bind settles_peek fun found => ?_
  cases found with
  | none => exact .pure _
  | some t =>
    dsimp only
    split
    · exact Settles.bind settles_next fun _ => .pure _
    · exact .pure _

/-! ## Rows -/

section Rows

variable {mark : Punct} {item : Reading α} (hitem : Settles n item)

include hitem

/-- Items behind marks settle when one item does. -/
theorem settles_itemsAfter (fuel : Nat) : Settles n (itemsAfter mark item fuel) := by
  induction fuel with
  | zero => exact .pure _
  | succ fuel ih =>
    refine Settles.bind (settles_accept mark) fun accepted => ?_
    cases accepted with
    | false => exact .pure _
    | true => exact Settles.bind hitem fun first => Settles.bind ih fun _ => .pure _

/-- A row settles when one item does. -/
theorem settles_row : Settles n (row mark item) := by
  refine Settles.bind hitem fun first => ?_
  refine Settles.bind .get fun cursor => ?_
  exact Settles.bind (settles_itemsAfter hitem _) fun _ => .pure _

/-- What stands between parentheses settles when one item does. -/
theorem settles_parenthesised : Settles n (parenthesised item) := by
  refine Settles.bind (settles_accept _) fun accepted => ?_
  cases accepted with
  | true => exact .pure _
  | false =>
    refine Settles.bind (settles_row hitem) fun items => ?_
    exact Settles.bind (settles_expect _) fun _ => .pure _

end Rows

/-! ## Expressions -/

/-- A pattern settles. -/
theorem settles_pattern : Settles n pattern := by
  refine Settles.afterNext fun _ _ t => ?_
  split
  · exact .pure _
  · exact .throw _

section Expressions

variable {expression : Reading Expr} (hbody : Settles n expression)

include hbody

/-- A clause settles when its body does. -/
theorem settles_clause : Settles n (clause expression) := by
  refine Settles.bind (settles_parenthesised settles_pattern) fun patterns => ?_
  refine Settles.bind (settles_expect _) fun brace => ?_
  refine Settles.bind hbody fun body => ?_
  exact Settles.bind (settles_expect _) fun _ => .pure _

/-- A function settles when its bodies do. -/
theorem settles_function : Settles n (function expression) := by
  have hclause := settles_clause hbody
  refine Settles.bind hclause fun first => ?_
  refine Settles.bind .get fun cursor => ?_
  refine Settles.bind (settles_itemsAfter ?_ _) fun _ => .pure _
  exact Settles.bind (settles_expect _) fun _ => hclause

end Expressions

/-- An expression settles before fewer lexemes than there are levels. -/
theorem settles_expression {depth : Nat} (h : n < depth) : Settles n (expression depth) := by
  induction depth generalizing n with
  | zero => omega
  | succ depth ih =>
    refine Settles.afterNext fun fewer hn t => ?_
    have hbody : Settles fewer (expression depth) := ih (by omega)
    split
    · exact .pure _
    · refine Settles.bind (settles_accept _) fun accepted => ?_
      cases accepted with
      | false => exact .pure _
      | true => exact Settles.bind (settles_parenthesised hbody) fun _ => .pure _
    · exact settles_function hbody
    · exact .throw _

/-! ## Modules -/

/-- Looking for a declaration settles, also where it looks behind a name. -/
theorem settles_atDeclaration : Settles n atDeclaration := by
  rintro ⟨_ | ⟨t | ⟨digits, place⟩, _ | ⟨t' | ⟨digits', place'⟩, rest⟩⟩, span, length⟩ _
  · exact ⟨[], .refl _⟩
  · exact ⟨[], .refl _⟩
  · exact ⟨[], .refl _⟩
  · unfold atDeclaration
    rw [Step.run_bind_ok (Step.run_get _)]
    dsimp only
    split
    · exact ⟨[t], place', rest, rfl⟩
    · exact ⟨[], .refl _⟩
  all_goals exact ⟨[], .refl _⟩

/-- Skipping settles. -/
theorem settles_skipWithin (fuel : Nat) : Settles n (skipWithin fuel) := by
  induction fuel with
  | zero => exact .pure _
  | succ fuel ih =>
    refine Settles.bind settles_peek fun found => ?_
    cases found with
    | none => exact .pure _
    | some t =>
      refine Settles.bind settles_atDeclaration fun reached => ?_
      cases reached with
      | true => exact .pure _
      | false => exact Settles.bind settles_next fun _ => ih

/-- Skipping to the next declaration settles. -/
theorem settles_skipToDeclaration : Settles n skipToDeclaration :=
  Settles.bind .get fun _ => settles_skipWithin _

section Modules

variable {depth : Nat} (sourceName source : String)

/-- A value settles before fewer lexemes than there are levels. -/
theorem settles_value (h : n < depth) (name : String) :
    Settles n (value depth sourceName source name) := by
  refine Settles.bind settles_peek fun found => ?_
  cases found with
  | none => exact Settles.bind .get fun _ => .throw _
  | some t =>
    dsimp only
    split
    · exact settles_expression h
    · exact Settles.bind settles_next fun _ => .throw _

/-- A reading that may skip settles when the reading does. -/
theorem settles_orSkip {reading : Reading α} (h : Settles n reading) :
    Settles n (orSkip reading) := by
  intro c hlength
  have hfirst := h c hlength
  unfold orSkip
  rw [Step.run_tryCatch]
  rcases hrun : reading.run c with ⟨(d | digits | _) | a, mid⟩ <;> rw [hrun] at hfirst
  · -- From the fault on, skipping may still meet an integer that is too long.
    obtain ⟨ts, hmoves⟩ := hfirst
    have hskip : Settles n (do
        skipToDeclaration
        throw (.diagnostic d) : Reading α) :=
      Settles.bind settles_skipToDeclaration fun _ => .throw d
    exact (hskip mid (Nat.le_trans hmoves.length_le hlength)).after hmoves
  all_goals exact hfirst

/-- A declaration settles before no more lexemes than there are levels. -/
theorem settles_declaration (h : n ≤ depth) :
    Settles n (declaration depth sourceName source) := by
  refine Settles.afterNext fun fewer hn head => ?_
  split
  · refine Settles.bind (settles_expect _) fun mark => ?_
    exact Settles.bind (settles_orSkip (settles_value sourceName source (by omega) _))
      fun _ => .pure _
  · exact Settles.bind settles_skipToDeclaration fun _ => .throw _

/-- A recorded reading settles when the reading does. -/
theorem settles_recorded {reading : Reading α} (h : Settles n reading) :
    Settles n (recorded reading) := by
  intro c hlength
  have hfirst := h c hlength
  unfold recorded
  rw [Step.run_tryCatch, Step.run_bind]
  rcases hrun : reading.run c with ⟨(d | digits | _) | a, mid⟩ <;> rw [hrun] at hfirst <;>
    exact hfirst

/-- Declarations settle before no more lexemes than there are levels. -/
theorem settles_entriesWithin (h : n ≤ depth) (fuel : Nat) :
    Settles n (entriesWithin depth sourceName source fuel) := by
  induction fuel with
  | zero => exact .pure _
  | succ fuel ih =>
    refine Settles.bind settles_peek fun found => ?_
    cases found with
    | none => exact .pure _
    | some t =>
      refine Settles.bind (settles_recorded (settles_declaration sourceName source h)) ?_
      exact fun entry => Settles.bind ih fun _ => .pure _

end Modules

end Reading

end QLanguage
