import QLanguage.Proofs.Reading.Loops

/-!
# One token of look-ahead

What a reading does before some tokens depends on nothing behind them, as long as it leaves one of
them unread or stops at one of them. `Local` says so: what follows those tokens may be replaced by
anything else. It is closed under taking readings in a row, because a reading that stops at a token
has taken that token, so the reading before it still had a token to look at.

The number of items that a row may have is bounded by all that is left of the source. That bound is
never reached (`run_itemsAfter_eq`), so it does not count as a look at what is left.
-/

namespace QLanguage

/-- The token that a diagnostic found in place of what was asked for. -/
def Diagnostic.found? : Diagnostic → Option Token
  | .unexpected _ found | .expectedExpression found | .expectedPattern found => some found
  | .missingValue _ _ _ _ | .endOfInput _ => none

namespace Reading

variable {α β : Type}

/-- A result that depends on no token behind the given ones, of which some are left: one of them is
left to look at, or the reading stopped at the last of them that it took. -/
def Settled (result : Except Stop α) (left : List Token) : Prop :=
  match result with
  | .ok _ => left ≠ []
  | .error (.diagnostic d) => d.found? ≠ none
  | .error _ => False

/-- A reading moves over tokens, takes the token that it stops at, and looks at the next token at
most. -/
structure Local (reading : Reading α) : Prop where
  /-- A reading that gives a result has moved over tokens. -/
  moves : ∀ {c c' : Cursor} {a : α}, reading.run c = (.ok a, c') → ∃ ts, c.Moves ts c'
  /-- A reading that stops at a token has moved over tokens, at least over that one. -/
  fault : ∀ {c c' : Cursor} {d : Diagnostic}, reading.run c = (.error (.diagnostic d), c') →
    d.found? ≠ none → ∃ ts, c.Moves ts c' ∧ ts ≠ []
  /-- What follows the tokens that settle a result may be anything. -/
  settled : ∀ {ts left : List Token} {rest : List Lexed} {span span' : Span} {length : Nat}
    {result : Except Stop α}, reading.run ⟨ts.map .token ++ rest, span, length⟩ =
      (result, ⟨left.map .token ++ rest, span', length⟩) → Settled result left →
      ∀ rest', reading.run ⟨ts.map .token ++ rest', span, length⟩ =
        (result, ⟨left.map .token ++ rest', span', length⟩)

/-! ## Readings in a row -/

/-- Tokens in front of the same rest are the same tokens. -/
theorem eq_of_map_token_append {ts ts' : List Token} {rest : List Lexed}
    (h : ts.map Lexed.token ++ rest = ts'.map Lexed.token ++ rest) : ts = ts' := by
  have hmap := List.append_cancel_right h
  exact List.map_inj_right (fun _ _ heq => Lexed.token.inj heq) |>.mp hmap

namespace Local

/-- A reading of its result alone looks at nothing. -/
theorem pure (a : α) : Local (Pure.pure a : Reading α) where
  moves h := by
    cases h
    exact ⟨[], .refl _⟩
  fault h := by cases h
  settled h _ rest' := by
    rw [Step.run_pure, Prod.mk.injEq, Cursor.mk.injEq] at h
    obtain ⟨rfl, hrest, rfl, -⟩ := h
    rw [eq_of_map_token_append hrest]
    rfl

/-- Readings in a row look at the next token at most when each of them does. -/
theorem bind {reading : Reading α} {next : α → Reading β} (hreading : Local reading)
    (hnext : ∀ a, Local (next a)) : Local (reading >>= next) where
  moves h := by
    obtain ⟨a, mid, hfirst, hsecond⟩ := Step.run_bind_eq_ok_iff.mp h
    obtain ⟨ts, hmoves⟩ := hreading.moves hfirst
    obtain ⟨ts', hmoves'⟩ := (hnext a).moves hsecond
    exact ⟨ts ++ ts', hmoves.trans hmoves'⟩
  fault {c c' d} h hfound := by
    rcases hfirst : reading.run c with ⟨stop | a, mid⟩
    · rw [Step.run_bind_error hfirst] at h
      cases h
      exact hreading.fault hfirst hfound
    · rw [Step.run_bind_ok hfirst] at h
      obtain ⟨ts, hmoves⟩ := hreading.moves hfirst
      obtain ⟨ts', hmoves', hne⟩ := (hnext a).fault h hfound
      exact ⟨ts ++ ts', hmoves.trans hmoves', List.append_ne_nil_of_right_ne_nil ts hne⟩
  settled {ts left rest span span' length result} h hsettled rest' := by
    rcases hfirst : reading.run ⟨ts.map .token ++ rest, span, length⟩ with ⟨stop | a, mid⟩
    · rw [Step.run_bind_error hfirst] at h
      cases h
      have hstop : Settled (.error stop : Except Stop α) left := by cases stop <;> exact hsettled
      rw [Step.run_bind_error (hreading.settled hfirst hstop rest')]
    · rw [Step.run_bind_ok hfirst] at h
      -- The second reading moves over some tokens, and a token is left for the first to look at.
      obtain ⟨ts', hmoves, hne⟩ : ∃ ts', mid.Moves ts' ⟨left.map .token ++ rest, span', length⟩ ∧
          ts' ++ left ≠ [] := by
        match result, hsettled with
        | .ok b, hleft =>
          obtain ⟨ts', hmoves⟩ := (hnext a).moves h
          exact ⟨ts', hmoves, List.append_ne_nil_of_right_ne_nil ts' hleft⟩
        | .error (.diagnostic d), hfound =>
          obtain ⟨ts', hmoves, hne⟩ := (hnext a).fault h hfound
          exact ⟨ts', hmoves, List.append_ne_nil_of_left_ne_nil hne left⟩
      obtain ⟨midRest, midSpan, midLength⟩ := mid
      obtain ⟨hrest, hlength⟩ := hmoves
      dsimp only at hrest hlength
      rw [← List.append_assoc, ← List.map_append] at hrest
      subst hrest hlength
      rw [Step.run_bind_ok (hreading.settled hfirst hne rest')]
      exact (hnext a).settled h hsettled rest'

end Local

/-! ## Tokens and marks -/

section AfterNext

variable {reading : Token → Reading α}
  (h : ∀ t, Local (reading t) ∨ ∃ d, reading t = throw (.diagnostic d) ∧ d.found? = some t)

include h

/-- Behind the next token, a reading that gives a result or stops at a token has taken that next
token at least. -/
theorem exists_moves_afterNext {c c' : Cursor} {result : Except Stop α} {left : List Token}
    (hrun : (next >>= reading).run c = (result, c')) (hsettled : Settled result left) :
    ∃ t ts, c.Moves (t :: ts) c' := by
  obtain ⟨_ | ⟨t | ⟨digits, place⟩, rest⟩, span, length⟩ := c
  · rw [Step.run_bind_error (run_next_nil span length)] at hrun
    cases hrun
    exact absurd rfl hsettled
  · rw [Step.run_bind_ok (run_next_token t rest span length)] at hrun
    have hmoves := run_next_ok (run_next_token t rest span length)
    rcases h t with hlocal | ⟨d, hthrow, -⟩
    · match result, hsettled with
      | .ok a, _ =>
        obtain ⟨ts, hmoves'⟩ := hlocal.moves hrun
        exact ⟨t, ts, hmoves.trans hmoves'⟩
      | .error (.diagnostic d), hfound =>
        obtain ⟨ts, hmoves', -⟩ := hlocal.fault hrun hfound
        exact ⟨t, ts, hmoves.trans hmoves'⟩
    · rw [hthrow] at hrun
      cases hrun
      exact ⟨t, [], hmoves⟩
  · cases hrun
    cases hsettled

/-- Behind the next token, a reading may look ahead at one more, or stop at that token. -/
theorem Local.afterNext : Local (next >>= reading) where
  moves {c c' a} hrun := by
    -- Whichever tokens are said to be left, a result is settled by having one of them.
    obtain ⟨t, ts, hmoves⟩ := exists_moves_afterNext h hrun
      (List.cons_ne_nil ⟨.punct .equal, .origin⟩ [] : Settled (.ok a) _)
    exact ⟨t :: ts, hmoves⟩
  fault {c c' d} hrun hfound := by
    have hsettled : Settled (.error (.diagnostic d) : Except Stop α) [] := hfound
    obtain ⟨t, ts, hmoves⟩ := exists_moves_afterNext h hrun hsettled
    exact ⟨t :: ts, hmoves, List.cons_ne_nil t ts⟩
  settled {ts left rest span span' length result} hrun hsettled rest' := by
    cases ts with
    | nil =>
      -- A token was taken from the rest, so the whole rest cannot be left.
      obtain ⟨t, ts, hmoves, -⟩ := exists_moves_afterNext h hrun hsettled
      have hlength := congrArg List.length hmoves
      simp at hlength
      omega
    | cons t ts =>
      rw [List.map_cons, List.cons_append, Step.run_bind_ok (run_next_token _ _ _ _)] at hrun
      rw [List.map_cons, List.cons_append, Step.run_bind_ok (run_next_token _ _ _ _)]
      rcases h t with hlocal | ⟨d, hthrow, -⟩
      · exact hlocal.settled hrun hsettled rest'
      · rw [hthrow, Step.run_throw, Prod.mk.injEq, Cursor.mk.injEq] at hrun
        obtain ⟨rfl, hrest, rfl, -⟩ := hrun
        rw [hthrow, eq_of_map_token_append hrest]
        rfl

end AfterNext

/-- Asking for a kind takes one token. -/
theorem local_expect (kind : Kind) : Local (expect kind) := by
  refine Local.afterNext fun t => ?_
  split
  · exact .inl (.pure t)
  · exact .inr ⟨_, rfl, rfl⟩

/-- Accepting a mark never finds fault with a token. -/
theorem run_accept_ne_fault {p : Punct} {c c' : Cursor} {d : Diagnostic} :
    (accept p).run c ≠ (.error (.diagnostic d), c') := by
  intro h
  obtain ⟨_ | ⟨t | ⟨digits, place⟩, rest⟩, span, length⟩ := c
  · cases h
  · by_cases hkind : t.kind = .punct p
    · rw [run_accept_token hkind] at h
      cases h
    · rw [run_accept_other hkind] at h
      cases h
  · cases h

/-- Accepting a mark takes that mark, or looks at the next token. -/
theorem local_accept (p : Punct) : Local (accept p) where
  moves {c c' a} h := by
    cases a with
    | true =>
      obtain ⟨t, -, hmoves⟩ := run_accept_true h
      exact ⟨[t], hmoves⟩
    | false =>
      cases run_accept_false h
      exact ⟨[], .refl _⟩
  fault h _ := absurd h run_accept_ne_fault
  settled {ts left rest span span' length result} h hsettled rest' := by
    cases ts with
    | nil =>
      -- Without a token to look at, none can be left.
      exfalso
      have hleaves := (keeps_accept p ⟨rest, span, length⟩).1.length_le
      rw [List.map_nil, List.nil_append] at h
      rw [h, List.length_append, List.length_map] at hleaves
      match result, hsettled with
      | .ok b, hleft =>
        have hpos := List.length_pos_iff.mpr hleft
        dsimp only at hleaves
        omega
      | .error (.diagnostic d), _ => exact run_accept_ne_fault h
    | cons t ts =>
      rw [List.map_cons, List.cons_append] at h ⊢
      by_cases hkind : t.kind = .punct p
      · rw [run_accept_token hkind, Prod.mk.injEq, Cursor.mk.injEq] at h
        obtain ⟨rfl, hrest, rfl, -⟩ := h
        rw [run_accept_token hkind, eq_of_map_token_append hrest]
      · rw [run_accept_other hkind, Prod.mk.injEq, Cursor.mk.injEq, ← List.cons_append,
          ← List.map_cons] at h
        obtain ⟨rfl, hrest, rfl, -⟩ := h
        rw [run_accept_other hkind, ← eq_of_map_token_append hrest]
        rfl

/-! ## Rows -/

section Rows

variable {mark : Punct} {item : Reading α}

/-- As many items are read behind marks as there are, whatever the bound is as long as it is not
below what is left to read. -/
theorem run_itemsAfter_eq (hitem : Step.Keeps Cursor.Leaves item) {fuel fuel' : Nat} {c : Cursor}
    (hfuel : c.rest.length ≤ fuel) (hfuel' : c.rest.length ≤ fuel') :
    (itemsAfter mark item fuel).run c = (itemsAfter mark item fuel').run c :=
  (loopRuns_itemsAfter hitem hfuel).unique (loopRuns_itemsAfter hitem hfuel')

/-- Items behind marks look at the next token at most when one item does. -/
theorem local_itemsAfter (hitem : Local item) (fuel : Nat) :
    Local (itemsAfter mark item fuel) := by
  induction fuel with
  | zero => exact .pure _
  | succ fuel ih =>
    refine Local.bind (local_accept mark) fun accepted => ?_
    cases accepted with
    | false => exact .pure _
    | true => exact Local.bind hitem fun _ => Local.bind ih fun _ => .pure _

/-- All items behind marks look at the next token at most when one item does. -/
theorem local_itemsLeft (hkeeps : Step.Keeps Cursor.Leaves item) (hitem : Local item) :
    Local (do itemsAfter mark item (← get).rest.length) where
  moves h := (local_itemsAfter hitem _).moves h
  fault h := (local_itemsAfter hitem _).fault h
  settled {ts left rest span span' length result} h hsettled rest' := by
    -- One bound that is enough before either rest.
    obtain ⟨fuel, hfuel, hfuel'⟩ : ∃ fuel, (ts.map Lexed.token ++ rest).length ≤ fuel ∧
        (ts.map Lexed.token ++ rest').length ≤ fuel :=
      ⟨_, Nat.le_max_left _ _, Nat.le_max_right _ _⟩
    have hrun : (itemsAfter mark item fuel).run ⟨ts.map .token ++ rest, span, length⟩ =
        (result, ⟨left.map .token ++ rest, span', length⟩) :=
      (run_itemsAfter_eq hkeeps hfuel (Nat.le_refl _)).trans h
    exact (run_itemsAfter_eq hkeeps (Nat.le_refl _) hfuel').trans
      ((local_itemsAfter hitem fuel).settled hrun hsettled rest')

/-- A row looks at the next token at most when one item does. -/
theorem local_row (hkeeps : Step.Keeps Cursor.Leaves item) (hitem : Local item) :
    Local (row mark item) := by
  have hrow : row mark item = (do
      let first ← item
      let more ← (do itemsAfter mark item (← get).rest.length)
      return first :: more) := by
    unfold row
    simp only [bind_assoc]
  rw [hrow]
  refine Local.bind hitem fun first => ?_
  exact Local.bind (local_itemsLeft hkeeps hitem) fun _ => .pure _

/-- What stands between parentheses looks at the next token at most when one item does. -/
theorem local_parenthesised (hkeeps : Step.Keeps Cursor.Leaves item) (hitem : Local item) :
    Local (parenthesised item) := by
  refine Local.bind (local_accept _) fun accepted => ?_
  cases accepted with
  | true => exact .pure _
  | false =>
    refine Local.bind (local_row hkeeps hitem) fun items => ?_
    exact Local.bind (local_expect _) fun _ => .pure _

end Rows

/-! ## Expressions -/

/-- A pattern takes one token. -/
theorem local_pattern : Local pattern := by
  refine Local.afterNext fun t => ?_
  split
  · exact .inl (.pure _)
  · exact .inr ⟨_, rfl, rfl⟩

section Expressions

variable {expression : Reading Expr}

/-- A clause looks at the next token at most when its body does. -/
theorem local_clause (hbody : Local expression) : Local (clause expression) := by
  refine Local.bind (local_parenthesised keeps_pattern local_pattern) fun patterns => ?_
  refine Local.bind (local_expect _) fun brace => ?_
  refine Local.bind hbody fun body => ?_
  exact Local.bind (local_expect _) fun _ => .pure _

/-- A function looks at the next token at most when its bodies do. -/
theorem local_function (hkeeps : Step.Keeps Cursor.Leaves expression)
    (hbody : Local expression) : Local (function expression) := by
  have hfunction : function expression = (do
      let first ← clause expression
      let others ← (do
        itemsAfter .semicolon
          (do
            let _ ← expect (.punct .openParen)
            clause expression)
          (← get).rest.length)
      return .function first others) := by
    unfold function
    simp only [bind_assoc]
  rw [hfunction]
  refine Local.bind (local_clause hbody) fun first => ?_
  refine Local.bind (local_itemsLeft ?_ ?_) fun _ => .pure _
  · exact Step.Keeps.bind (keeps_expect _) fun _ => keeps_clause hkeeps
  · exact Local.bind (local_expect _) fun _ => local_clause hbody

end Expressions

/-- An expression looks at the next token at most. -/
theorem local_expression (depth : Nat) : Local (expression depth) := by
  induction depth with
  | zero =>
    exact {
      moves := fun h => by cases h
      fault := fun h => by cases h
      settled := fun h hsettled => by
        obtain ⟨rfl, -⟩ := Prod.mk.inj h
        cases hsettled }
  | succ depth ih =>
    refine Local.afterNext fun t => ?_
    split
    · exact .inl (.pure _)
    · refine .inl (Local.bind (local_accept _) fun accepted => ?_)
      cases accepted with
      | false => exact .pure _
      | true =>
        exact Local.bind (local_parenthesised (keeps_expression depth) ih) fun _ => .pure _
    · exact .inl (local_function (keeps_expression depth) ih)
    · exact .inr ⟨_, rfl, rfl⟩

end Reading

end QLanguage
