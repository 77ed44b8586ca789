import QLanguage.Proofs.Reading.Enough
import QLanguage.Proofs.Reading.Module
import QLanguage.Proofs.Reading.Viable

/-!
# Recovery accounts for every token

The tokens of a source fall into segments, one for each entry of the module that is read, in their
order and without anything between them. The segment of a declaration derives it. The segment of a
diagnostic goes up to the token at fault, and if the fault lies at the first token or inside the
value, it goes on up to the next name with an equals sign behind it (`Skipped`).

`Segment` has one rule for each way in which a declaration can end. The reader follows these rules
token by token (`run_recorded_declaration`), and its loop puts the segments in a row.
-/

namespace QLanguage

open Grammar

/-! ## Segments -/

/-- Tokens that start with a name and an equals sign. -/
def StartsDeclaration (ts : List Token) : Prop :=
  ∃ name mark rest, ts = name :: mark :: rest ∧ name.kind = .identifier ∧
    mark.kind = .punct .equal

/-- Tokens up to the next declaration or the end of the source. -/
structure Skipped (skipped following : List Token) : Prop where
  /-- At none of the skipped tokens does a declaration start. -/
  before : ∀ front back, skipped = front ++ back → back ≠ [] →
    ¬StartsDeclaration (back ++ following)
  /-- What follows starts a declaration, if there is anything. -/
  behind : following = [] ∨ StartsDeclaration following

/-- The value of a declaration breaks off at a token: those before it could be continued to a value,
and with it no module can start. -/
structure BreaksAt (sourceName source name : String) (before : List Token) (t : Token)
    (d : Diagnostic) : Prop where
  /-- The tokens before it could be continued. -/
  viable : Viable IsExpression (before.map Token.lexeme)
  /-- With it, the declaration cannot be continued, nor can another one follow. -/
  offends : ¬Viable IsModule
    (.identifier name :: .punct .equal :: (before ++ [t]).map Token.lexeme)
  /-- At the first token a value is missing; behind it, the token is not what was asked for. -/
  reported : if before = [] then d = .missingValue name t.span (some source) (some sourceName)
    else d.found? = some t

/-- The value of a declaration breaks off at the end of the source: it could be continued, but is
not complete. -/
structure BreaksOff (sourceName source name : String) (ts : List Token) (d : Diagnostic) :
    Prop where
  /-- The tokens could be continued. -/
  viable : Viable IsExpression (ts.map Token.lexeme)
  /-- They are no value as they stand. -/
  incomplete : ∀ e, ¬IsExpression (ts.map Token.lexeme) e
  /-- Without any token a value is missing; behind some, the source ends too early. -/
  reported : if ts = [] then
      d = .missingValue name ⟨source.length, source.length⟩ (some source) (some sourceName)
    else d = .endOfInput (some source.length)

/-- The tokens of one entry, before what follows them. -/
inductive Segment (sourceName source : String) : List Token → Entry → List Token → Prop where
  /-- A declaration derives from its tokens, and goes on as long as it can. -/
  | item {ts following : List Token} {d : Declaration}
      (derives : IsDeclaration (ts.map Token.lexeme) d)
      (ends : ∀ t rest, following = t :: rest →
        ¬Viable IsDeclaration ((ts ++ [t]).map Token.lexeme)) :
      Segment sourceName source ts (.ok d) following
  /-- A first token that is no name is reported, and what follows it is skipped. -/
  | head {t : Token} {skipped following : List Token} (hhead : t.kind ≠ .identifier)
      (hskipped : Skipped skipped following) :
      Segment sourceName source (t :: skipped) (.error (.unexpected .identifier t)) following
  /-- A token behind the name that is no equals sign is reported, and nothing is skipped. -/
  | mark {head t : Token} {name : String} {following : List Token}
      (hname : head.lexeme = .identifier name) (hmark : t.kind ≠ .punct .equal) :
      Segment sourceName source [head, t] (.error (.unexpected (.punct .equal) t)) following
  /-- A name at the end of the source is reported as its end. -/
  | name {head : Token} {name : String} (hname : head.lexeme = .identifier name) :
      Segment sourceName source [head] (.error (.endOfInput (some source.length))) []
  /-- A value that breaks off at a token is reported, and what follows that token is skipped. -/
  | value {head mark t : Token} {name : String} {before skipped following : List Token}
      {d : Diagnostic} (hname : head.lexeme = .identifier name)
      (hmark : mark.lexeme = .punct .equal) (hbreaks : BreaksAt sourceName source name before t d)
      (hskipped : Skipped skipped following) :
      Segment sourceName source (head :: mark :: (before ++ t :: skipped)) (.error d) following
  /-- A value that breaks off at the end of the source is reported. -/
  | valueEnd {head mark : Token} {name : String} {ts : List Token} {d : Diagnostic}
      (hname : head.lexeme = .identifier name) (hmark : mark.lexeme = .punct .equal)
      (hbreaks : BreaksOff sourceName source name ts d) :
      Segment sourceName source (head :: mark :: ts) (.error d) []

/-- Tokens that fall into one segment for each of some entries. -/
inductive Segments (sourceName source : String) : List Token → List Entry → Prop where
  /-- No tokens and no entries. -/
  | nil : Segments sourceName source [] []
  /-- A segment of the first entry, and those of the others behind it. -/
  | cons {ts following : List Token} {entry : Entry} {entries : List Entry}
      (first : Segment sourceName source ts entry following)
      (more : Segments sourceName source following entries) :
      Segments sourceName source (ts ++ following) (entry :: entries)

/-! ## Starting and continuing declarations -/

/-- A lexeme that an expression may start with starts one. -/
theorem viable_of_startsExpression {l : Lexeme} (h : Reading.startsExpression l = true) :
    Viable IsExpression [l] := by
  unfold Reading.startsExpression at h
  split at h
  · exact viable_of_rule (.string _)
  · exact viable_of_rule (.variable _)
  · -- An opening parenthesis starts a clause.
    have hclause : IsClause [.punct .openParen, .punct .closeParen, .punct .openBrace, .string "",
        .punct .closeBrace] (.mk [] (.string "")) := .mk .empty isExpression_string
    have hexpression : Viable IsExpression ([.punct .openParen] ++ [.punct .closeParen,
        .punct .openBrace, .string "", .punct .closeBrace]) :=
      (viable_of_rule hclause).row_item.expression_clauses
    exact hexpression.of_append
  · cases h

/-- What is viable as a declaration is viable as an expression behind the equals sign. -/
theorem Viable.declaration_value {name : String} {ls : List Lexeme}
    (h : Viable IsDeclaration (.identifier name :: .punct .equal :: ls)) :
    Viable IsExpression ls := by
  obtain ⟨more, d, hd⟩ := h
  cases hd with
  | mk _ hexpression => exact ⟨more, _, hexpression⟩

/-- What keeps an expression from ending with a name behind keeps a module from being continued. -/
theorem not_viable_module {name : String} {ls' : List Lexeme}
    (h : ∀ ls e follow more, IsExpression ls e →
      (follow = [] ∨ ∃ name ls', follow = .identifier name :: ls') →
      ls ++ follow ≠ ls' ++ more) :
    ¬Viable IsModule (.identifier name :: .punct .equal :: ls') := by
  rintro ⟨more, ds, hmodule⟩
  generalize hall : Lexeme.identifier name :: .punct .equal :: ls' ++ more = all at hmodule
  cases hmodule with
  | nil => cases hall
  | cons first others =>
    obtain ⟨name', hexpression⟩ := first
    rw [List.cons_append, List.cons_append, List.cons_append, List.cons_append, List.cons.injEq,
      List.cons.injEq] at hall
    exact h _ _ _ more hexpression others.eq_nil_or_identifier hall.2.2.symm

namespace Reading

variable {depth : Nat} {sourceName source name : String} {span : Span}

/-- A cursor that moves over tokens before other tokens leaves those. -/
theorem exists_left_of_moves {ts all : List Token} {length : Nat} {c : Cursor}
    (h : (Cursor.mk (all.map .token) span length).Moves ts c) :
    ∃ left span', all = ts ++ left ∧ c = ⟨left.map .token, span', length⟩ := by
  obtain ⟨rest, span', length'⟩ := c
  obtain ⟨hrest, hlength⟩ := h
  dsimp only at hrest hlength
  obtain ⟨front, left, rfl, hfront, rfl⟩ := List.map_eq_append_iff.mp hrest
  have heq : front = ts := (List.map_inj_right fun _ _ heq => Lexed.token.inj heq).mp hfront
  exact ⟨left, span', by rw [heq], by rw [hlength]⟩

/-! ## Skipping -/

/-- Looking for a declaration finds whether one starts. -/
theorem run_atDeclaration (ts : List Token) (span : Span) (length : Nat) :
    ∃ reached, atDeclaration.run ⟨ts.map .token, span, length⟩ =
      (.ok reached, ⟨ts.map .token, span, length⟩) ∧ (reached = true ↔ StartsDeclaration ts) := by
  match ts with
  | [] => exact ⟨false, rfl, by simp [StartsDeclaration]⟩
  | [t] => exact ⟨false, rfl, by simp [StartsDeclaration]⟩
  | t :: t' :: rest =>
    refine ⟨decide (t.kind = .identifier) && decide (t'.kind = .punct .equal), rfl, ?_⟩
    rw [Bool.and_eq_true, decide_eq_true_iff, decide_eq_true_iff]
    constructor
    · rintro ⟨hname, hmark⟩
      exact ⟨t, t', rest, rfl, hname, hmark⟩
    · rintro ⟨name, mark, others, heq, hname, hmark⟩
      cases heq
      exact ⟨hname, hmark⟩

/-- Skipping goes up to the next declaration or the end of the source. -/
theorem run_skipWithin {fuel : Nat} {ts : List Token} (hfuel : ts.length ≤ fuel) (span : Span)
    (length : Nat) :
    ∃ skipped following span', ts = skipped ++ following ∧ Skipped skipped following ∧
      (skipWithin fuel).run ⟨ts.map .token, span, length⟩ =
        (.ok (), ⟨following.map .token, span', length⟩) := by
  induction fuel generalizing ts span with
  | zero =>
    obtain rfl : ts = [] := List.eq_nil_of_length_eq_zero (Nat.le_zero.mp hfuel)
    exact ⟨[], [], span, rfl, ⟨by simp, .inl rfl⟩, rfl⟩
  | succ fuel ih =>
    cases ts with
    | nil => exact ⟨[], [], span, rfl, ⟨by simp, .inl rfl⟩, rfl⟩
    | cons t ts =>
      obtain ⟨reached, hreached, hstarts⟩ := run_atDeclaration (t :: ts) span length
      unfold skipWithin
      rw [List.map_cons] at hreached ⊢
      rw [Step.run_bind_ok (run_peek_token _ _ _ _)]
      dsimp only
      rw [Step.run_bind_ok hreached]
      cases reached with
      | true => exact ⟨[], t :: ts, span, rfl, ⟨by simp, .inr (hstarts.mp rfl)⟩, rfl⟩
      | false =>
        obtain ⟨skipped, following, span', rfl, hskipped, hrun⟩ :=
          ih (Nat.le_of_succ_le_succ hfuel) t.span
        refine ⟨t :: skipped, following, span', rfl, ⟨?_, hskipped.behind⟩, ?_⟩
        · -- At the first of them no declaration starts, and the others are skipped already.
          intro front back hback hne
          cases front with
          | nil =>
            rw [List.nil_append] at hback
            subst hback
            exact fun h => Bool.false_ne_true (hstarts.mpr h)
          | cons t' front =>
            rw [List.cons_append, List.cons.injEq] at hback
            exact hskipped.before front back hback.2 hne
        · rw [if_neg Bool.false_ne_true, Step.run_bind_ok (run_next_token _ _ _ _)]
          exact hrun

/-- Skipping to the next declaration goes up to it or to the end of the source. -/
theorem run_skipToDeclaration (ts : List Token) (span : Span) (length : Nat) :
    ∃ skipped following span', ts = skipped ++ following ∧ Skipped skipped following ∧
      skipToDeclaration.run ⟨ts.map .token, span, length⟩ =
        (.ok (), ⟨following.map .token, span', length⟩) :=
  run_skipWithin (Nat.le_of_eq (List.length_map _).symm) span length

/-- A reading that meets a malformed source skips to the next declaration behind it. -/
theorem run_orSkip_of_fault {α : Type} {reading : Reading α} {c : Cursor} {d : Diagnostic}
    {left : List Token} {length : Nat}
    (h : reading.run c = (.error (.diagnostic d), ⟨left.map .token, span, length⟩)) :
    ∃ skipped following span', left = skipped ++ following ∧ Skipped skipped following ∧
      (orSkip reading).run c =
        (.error (.diagnostic d), ⟨following.map .token, span', length⟩) := by
  obtain ⟨skipped, following, span', hleft, hskipped, hrun⟩ :=
    run_skipToDeclaration left span length
  refine ⟨skipped, following, span', hleft, hskipped, ?_⟩
  unfold orSkip
  rw [Step.run_tryCatch, h]
  dsimp only
  rw [Step.run_bind_ok hrun]
  rfl

/-- The diagnostic of a malformed source is recorded. -/
theorem run_recorded_of_fault {α : Type} {reading : Reading α} {c c' : Cursor} {d : Diagnostic}
    (h : reading.run c = (.error (.diagnostic d), c')) :
    (recorded reading).run c = (.ok (.error d), c') := by
  unfold recorded
  rw [Step.run_tryCatch, Step.run_bind_error h]
  rfl

/-! ## Values -/

/-- How an expression ends before some tokens, with what is left of them: it is read as far as it
goes, or stops at a token, or stops at the end of the source. -/
inductive ExpressionEnds (length : Nat) :
    List Token → Except Stop Expr → List Token → Prop where
  /-- The tokens before what is left derive the expression, and the next does not continue it. -/
  | read {before left : List Token} {e : Expr} (derives : IsExpression (before.map Token.lexeme) e)
      (ends : ∀ t rest, left = t :: rest →
        ¬Viable IsExpression ((before ++ [t]).map Token.lexeme)) :
      ExpressionEnds length (before ++ left) (.ok e) left
  /-- The tokens before the one at fault can be continued; with it, neither can they, nor does an
  expression end before it with a name behind. -/
  | stopsAt {before left : List Token} {t : Token} {d : Diagnostic} (hfound : d.found? = some t)
      (viable : Viable IsExpression (before.map Token.lexeme))
      (offends : ∀ ls e follow more, IsExpression ls e →
        (follow = [] ∨ ∃ name ls', follow = .identifier name :: ls') →
        ls ++ follow ≠ (before ++ [t]).map Token.lexeme ++ more) :
      ExpressionEnds length (before ++ t :: left) (.error (.diagnostic d)) left
  /-- All tokens can be continued, but they are no expression as they stand. -/
  | stopsBehind {ts : List Token} (viable : Viable IsExpression (ts.map Token.lexeme))
      (incomplete : ∀ e, ¬IsExpression (ts.map Token.lexeme) e) :
      ExpressionEnds length ts (.error (.diagnostic (.endOfInput (some (length : Int))))) []

/-- Before fewer tokens than there are levels, an expression ends in one of these ways. -/
theorem run_expression_ends {ts : List Token} (hsource : ∀ t ∈ ts, t.lexeme.inSource = true)
    (hdepth : ts.length < depth) (span : Span) (length : Nat) :
    ∃ result left span', ExpressionEnds length ts result left ∧
      (expression depth).run ⟨ts.map .token, span, length⟩ =
        (result, ⟨left.map .token, span', length⟩) := by
  have hc : (Cursor.mk (ts.map .token) span length).InSource := by
    intro t ht
    obtain ⟨t', ht', heq⟩ := List.mem_map.mp ht
    cases heq
    exact hsource t ht'
  rcases hrun : (expression depth).run ⟨ts.map .token, span, length⟩ with ⟨stop | e, c'⟩
  · -- There are levels enough, so it stopped with a diagnostic.
    obtain ⟨d, rfl⟩ := (settles_expression hdepth).exists_diagnostic
      (Cursor.allTokens_map ts span length) (Nat.le_of_eq (List.length_map _)) (by rw [hrun])
    obtain ⟨before, hviable, ⟨t, hfound, hmoves⟩ | ⟨rfl, hmoves, hrest⟩⟩ :=
      breaks_expression depth hc hrun
    · obtain ⟨left, span', rfl, rfl⟩ := exists_left_of_moves hmoves
      refine ⟨_, left, span', ?_, rfl⟩
      rw [List.append_assoc, List.singleton_append]
      refine .stopsAt hfound hviable fun ls e follow more he hfollow => ?_
      rw [List.map_append] at hrun
      exact not_derived_of_fault hrun (by simp [hfound]) he hfollow
    · obtain ⟨left, span', rfl, rfl⟩ := exists_left_of_moves hmoves
      obtain rfl : left = [] := List.map_eq_nil_iff.mp hrest
      rw [List.append_nil] at hrun ⊢
      refine ⟨_, [], span', .stopsBehind hviable ?_, rfl⟩
      -- An expression would have been read, with levels enough for it as well.
      intro e he
      have hdeep := run_expression_levels (Nat.le_max_left depth e.nesting) hrun (by simp)
      obtain ⟨left, span'', -, hread⟩ := run_expression_of_derived he
        (Nat.le_max_right depth e.nesting) (.inl rfl) (List.append_nil _).symm span length
      rw [hdeep] at hread
      cases hread
  · obtain ⟨before, hmoves, he⟩ := sound_expression depth hc hrun
    obtain ⟨left, span', rfl, rfl⟩ := exists_left_of_moves hmoves
    refine ⟨_, left, span', .read he.1 ?_, rfl⟩
    rintro t rest rfl
    rw [List.map_append, List.map_cons] at hrun
    exact not_viable_of_read hrun

/-- How the value of a declaration ends before some tokens, with what is left of them. -/
inductive ValueEnds (sourceName source name : String) :
    List Token → Except Stop Expr → List Token → Prop where
  /-- The tokens before what is left derive the value, and the next one does not continue it. -/
  | read {before left : List Token} {e : Expr} (derives : IsExpression (before.map Token.lexeme) e)
      (ends : ∀ t rest, left = t :: rest →
        ¬Viable IsExpression ((before ++ [t]).map Token.lexeme)) :
      ValueEnds sourceName source name (before ++ left) (.ok e) left
  /-- The value breaks off at a token. -/
  | breaksAt {before left : List Token} {t : Token} {d : Diagnostic}
      (breaks : BreaksAt sourceName source name before t d) :
      ValueEnds sourceName source name (before ++ t :: left) (.error (.diagnostic d)) left
  /-- The value breaks off at the end of the source. -/
  | breaksOff {ts : List Token} {d : Diagnostic} (breaks : BreaksOff sourceName source name ts d) :
      ValueEnds sourceName source name ts (.error (.diagnostic d)) []

/-- An expression that starts where it may ends as a value does. -/
theorem ExpressionEnds.value {t : Token} {ts left : List Token} {result : Except Stop Expr}
    (hstarts : startsExpression t.lexeme = true)
    (h : ExpressionEnds source.length (t :: ts) result left) :
    ValueEnds sourceName source name (t :: ts) result left := by
  generalize hall : t :: ts = all at h
  cases h with
  | read derives ends => exact .read derives ends
  | @stopsAt before left t' d hfound viable offends =>
    refine .breaksAt ⟨viable, not_viable_module offends, ?_⟩
    -- The first token can be continued, so it is not the one at fault.
    have hne : before ≠ [] := by
      rintro rfl
      rw [List.nil_append, List.cons.injEq] at hall
      obtain ⟨rfl, -⟩ := hall
      obtain ⟨more, e, he⟩ := viable_of_startsExpression hstarts
      exact offends _ e [] more he (.inl rfl) (List.append_nil _)
    rw [if_neg hne]
    exact hfound
  | stopsBehind viable incomplete =>
    subst hall
    exact .breaksOff ⟨viable, incomplete, by simp⟩

/-- Before fewer tokens than there are levels, a value ends in one of these ways. -/
theorem run_value_ends (sourceName source name : String) {ts : List Token}
    (hsource : ∀ t ∈ ts, t.lexeme.inSource = true) (hdepth : ts.length < depth) (span : Span) :
    ∃ result left span', ValueEnds sourceName source name ts result left ∧
      (value depth sourceName source name).run ⟨ts.map .token, span, source.length⟩ =
        (result, ⟨left.map .token, span', source.length⟩) := by
  unfold value
  cases ts with
  | nil =>
    have hbreaks : BreaksOff sourceName source name []
        (.missingValue name ⟨source.length, source.length⟩ (some source) (some sourceName)) := by
      refine ⟨⟨_, _, isExpression_string⟩, ?_, by simp⟩
      intro e he
      obtain ⟨l, ls, hls, -⟩ := he.exists_first
      cases hls
    exact ⟨_, [], span, .breaksOff hbreaks, rfl⟩
  | cons t ts =>
    rw [List.map_cons, Step.run_bind_ok (run_peek_token _ _ _ _)]
    dsimp only
    by_cases hstarts : startsExpression t.lexeme = true
    · rw [if_pos hstarts]
      obtain ⟨result, left, span', hends, hrun⟩ :=
        run_expression_ends hsource hdepth span source.length
      exact ⟨result, left, span', hends.value hstarts, hrun⟩
    · rw [if_neg hstarts, Step.run_bind_ok (run_next_token _ _ _ _)]
      have hbreaks : BreaksAt sourceName source name [] t
          (.missingValue name t.span (some source) (some sourceName)) := by
        refine ⟨⟨_, _, isExpression_string⟩, not_viable_module ?_, by simp⟩
        -- Every expression starts with another lexeme.
        intro ls e follow more he _ heq
        obtain ⟨l, ls', rfl, hl⟩ := he.exists_first
        cases heq
        exact hstarts hl
      exact ⟨_, ts, t.span, .breaksAt hbreaks, rfl⟩

/-! ## Declarations -/

/-- Behind a name that is no name of a declaration, the reading of a declaration stops. -/
theorem run_recorded_head {t : Token} (hhead : ∀ name, t.lexeme ≠ .identifier name)
    (ts : List Token) (span : Span) (length : Nat) :
    ∃ skipped following span', ts = skipped ++ following ∧ Skipped skipped following ∧
      (recorded (declaration depth sourceName source)).run
        ⟨(t :: ts).map .token, span, length⟩ =
          (.ok (.error (.unexpected .identifier t)), ⟨following.map .token, span', length⟩) := by
  obtain ⟨skipped, following, span', hleft, hskipped, hrun⟩ :=
    run_skipToDeclaration ts t.span length
  refine ⟨skipped, following, span', hleft, hskipped, run_recorded_of_fault ?_⟩
  unfold declaration
  rw [List.map_cons, Step.run_bind_ok (run_next_token _ _ _ _)]
  split
  · next name hname => exact absurd hname (hhead name)
  · rw [Step.run_bind_ok hrun]
    rfl

/-- Behind a name and an equals sign, a declaration is what its value comes to. -/
theorem run_declaration_value (depth : Nat) (sourceName source : String) {t mark : Token}
    (hname : t.lexeme = .identifier name) (hmark : mark.kind = .punct .equal) (rest : List Lexed)
    (span : Span) (length : Nat) :
    (declaration depth sourceName source).run ⟨.token t :: .token mark :: rest, span, length⟩ =
      (do return ⟨name, ← orSkip (value depth sourceName source name)⟩ :
        Reading Declaration).run ⟨rest, mark.span, length⟩ := by
  unfold declaration
  rw [Step.run_bind_ok (run_next_token _ _ _ _), hname]
  dsimp only
  rw [Step.run_bind_ok (run_expect_token hmark _ _ _)]

/-- Behind a name and an equals sign, the tokens of the value are followed by what its declaration
leaves. -/
theorem run_recorded_value {t mark : Token} {ts : List Token}
    (hname : t.lexeme = .identifier name) (hmark : mark.lexeme = .punct .equal)
    (hsource : ∀ t' ∈ ts, t'.lexeme.inSource = true) (hdepth : ts.length < depth) (span : Span) :
    ∃ inside following entry span', ts = inside ++ following ∧
      Segment sourceName source (t :: mark :: inside) entry following ∧
      (recorded (declaration depth sourceName source)).run
        ⟨(t :: mark :: ts).map .token, span, source.length⟩ =
          (.ok entry, ⟨following.map .token, span', source.length⟩) := by
  obtain ⟨result, left, span', hends, hvalue⟩ :=
    run_value_ends sourceName source name hsource hdepth mark.span
  have hdeclaration := run_declaration_value depth sourceName source hname (kind_of_lexeme hmark)
    (ts.map .token) span source.length
  cases hends with
  | @read before _ e derives ends =>
    refine ⟨before, left, .ok ⟨name, e⟩, span', rfl, .item ?_ ?_, run_recorded_of_ok ?_⟩
    · rw [List.map_cons, List.map_cons, hname, hmark]
      exact .mk name derives
    · intro u rest hleft hviable
      rw [List.map_append, List.map_cons, List.map_cons, hname, hmark] at hviable
      refine ends u rest hleft ?_
      rw [List.map_append]
      exact hviable.declaration_value
    · exact hdeclaration.trans (Step.run_bind_ok (run_orSkip_of_ok hvalue))
  | @breaksAt before _ t' d breaks =>
    obtain ⟨skipped, following, span'', rfl, hskipped, hrun⟩ := run_orSkip_of_fault hvalue
    refine ⟨before ++ t' :: skipped, following, .error d, span'', by simp,
      .value hname hmark breaks hskipped, run_recorded_of_fault ?_⟩
    exact hdeclaration.trans (Step.run_bind_error hrun)
  | @breaksOff _ d breaks =>
    obtain ⟨skipped, following, span'', hleft, -, hrun⟩ := run_orSkip_of_fault hvalue
    obtain ⟨rfl, rfl⟩ := List.nil_eq_append_iff.mp hleft
    refine ⟨ts, [], .error d, span'', by simp, .valueEnd hname hmark breaks,
      run_recorded_of_fault ?_⟩
    exact hdeclaration.trans (Step.run_bind_error hrun)

/-- A name at the end of the source, or with anything but an equals sign behind it, is reported
with nothing skipped. -/
theorem run_declaration_mark {t : Token} (hname : t.lexeme = .identifier name) {rest : List Lexed}
    {span : Span} {length : Nat} {d : Diagnostic} {c : Cursor}
    (h : (expect (.punct .equal)).run ⟨rest, t.span, length⟩ = (.error (.diagnostic d), c)) :
    (declaration depth sourceName source).run ⟨.token t :: rest, span, length⟩ =
      (.error (.diagnostic d), c) := by
  unfold declaration
  rw [Step.run_bind_ok (run_next_token _ _ _ _), hname]
  dsimp only
  rw [Step.run_bind_error h]

/-- Before tokens of which there are no more than levels, a declaration takes the segment of the
entry that is recorded for it. -/
theorem run_recorded_declaration (sourceName : String) {t : Token} {ts : List Token}
    (hsource : ∀ t' ∈ t :: ts, t'.lexeme.inSource = true) (hdepth : ts.length < depth)
    (span : Span) :
    ∃ inside following entry span', ts = inside ++ following ∧
      Segment sourceName source (t :: inside) entry following ∧
      (recorded (declaration depth sourceName source)).run
        ⟨(t :: ts).map .token, span, source.length⟩ =
          (.ok entry, ⟨following.map .token, span', source.length⟩) := by
  rw [List.forall_mem_cons] at hsource
  have hkind := Lexeme.kind_eq_identifier_iff hsource.1
  by_cases hhead : ∃ name, t.lexeme = .identifier name
  · obtain ⟨name, hname⟩ := hhead
    cases ts with
    | nil =>
      refine ⟨[], [], _, t.span, rfl, .name hname, run_recorded_of_fault ?_⟩
      exact run_declaration_mark hname (run_next_nil t.span source.length)
    | cons mark ts =>
      rw [List.forall_mem_cons] at hsource
      by_cases hmark : mark.kind = .punct .equal
      · obtain ⟨inside, following, entry, span', rfl, hsegment, hrun⟩ := run_recorded_value
          hname ((Lexeme.kind_eq_punct_iff hsource.2.1 .equal).mp hmark) hsource.2.2
          (Nat.lt_of_succ_lt hdepth) span
        exact ⟨mark :: inside, following, entry, span', rfl, hsegment, hrun⟩
      · refine ⟨[mark], ts, _, mark.span, rfl, .mark hname hmark, run_recorded_of_fault ?_⟩
        exact run_declaration_mark hname (run_expect_other hmark _ _ _)
  · obtain ⟨skipped, following, span', rfl, hskipped, hrun⟩ := run_recorded_head
      (fun name hname => hhead ⟨name, hname⟩) ts span source.length
    exact ⟨skipped, following, _, span', rfl, .head (fun h => hhead (hkind.mp h)) hskipped, hrun⟩

/-! ## Modules -/

/-- Before tokens of which there are no more than levels, declarations take the segments of the
entries that are recorded for them. -/
theorem run_entriesWithin (sourceName : String) {fuel : Nat} {ts : List Token}
    (hsource : ∀ t ∈ ts, t.lexeme.inSource = true) (hdepth : ts.length ≤ depth)
    (hfuel : ts.length ≤ fuel) (span : Span) :
    ∃ entries span', Segments sourceName source ts entries ∧
      (entriesWithin depth sourceName source fuel).run ⟨ts.map .token, span, source.length⟩ =
        (.ok entries, ⟨[], span', source.length⟩) := by
  induction fuel generalizing ts span with
  | zero =>
    obtain rfl : ts = [] := List.eq_nil_of_length_eq_zero (Nat.le_zero.mp hfuel)
    exact ⟨[], span, .nil, rfl⟩
  | succ fuel ih =>
    cases ts with
    | nil => exact ⟨[], span, .nil, rfl⟩
    | cons t ts =>
      obtain ⟨inside, following, entry, span', rfl, hsegment, hrun⟩ :=
        run_recorded_declaration sourceName hsource hdepth span
      -- A segment has a token at least, so the fuel lasts for the others.
      rw [List.length_cons, List.length_append] at hdepth hfuel
      have hdepth' : following.length ≤ depth := by omega
      have hfuel' : following.length ≤ fuel := by omega
      have hsource' : ∀ t' ∈ following, t'.lexeme.inSource = true := fun t' ht' =>
        hsource t' (List.mem_cons_of_mem _ (List.mem_append_right _ ht'))
      obtain ⟨entries, span'', hsegments, hmore⟩ := ih hsource' hdepth' hfuel' span'
      refine ⟨entry :: entries, span'', .cons hsegment hsegments, ?_⟩
      unfold entriesWithin
      rw [List.map_cons] at hrun ⊢
      rw [Step.run_bind_ok (run_peek_token _ _ _ _)]
      dsimp only
      rw [Step.run_bind_ok hrun, Step.run_bind_ok hmore]
      rfl

end Reading

/-! ## Sources -/

/-- With as many levels as there are tokens, or more, a source is read as the entries of segments of
its tokens. -/
theorem exists_segments (name : String) {source : String} {ts : List Token}
    (htokens : tokens source = .ok ts) :
    ∃ entries, Segments name source ts entries ∧ ∀ depth, ts.length ≤ depth →
      parseModule depth name source = .ok (Parsed.ofEntries name entries) := by
  have hrest := tokens_eq_ok_iff.mp htokens
  obtain ⟨entries, span, hsegments, hrun⟩ := Reading.run_entriesWithin name
    (inSource_of_tokens htokens) (Nat.le_refl ts.length) (Nat.le_of_eq (List.length_map _).symm)
    .origin
  have hread : parseModule ts.length name source = .ok (Parsed.ofEntries name entries) := by
    have hentries : (Reading.entries ts.length name source).run (Cursor.ofSource source) =
        (.ok entries, ⟨[], span, source.length⟩) := by
      unfold Cursor.ofSource
      rw [hrest]
      exact hrun
    rw [parseModule, hentries]
    rfl
  exact ⟨entries, hsegments, fun depth hdepth => parseModule_levels hdepth hread⟩

/-- The tokens of a source fall into segments, in order and without loss, one for each declaration
that is read and each diagnostic that is recorded, in their order; unless the source nests too
deeply for the levels that are given, and as many levels as there are tokens always suffice. -/
theorem parse_splits_into_segments (name : String) {source : String} {ts : List Token}
    (htokens : tokens source = .ok ts) :
    ∃ entries, Segments name source ts entries ∧ ∀ depth,
      (parseModule depth name source = .ok (Parsed.ofEntries name entries) ∨
        parseModule depth name source = .error .tooDeep) ∧
      (ts.length ≤ depth →
        parseModule depth name source = .ok (Parsed.ofEntries name entries)) := by
  obtain ⟨entries, hsegments, hread⟩ := exists_segments name htokens
  exact ⟨entries, hsegments, fun depth => ⟨parseModule_ok_or_tooDeep hread depth, hread depth⟩⟩

/-- A value that breaks off at a comma is skipped up to the next declaration, which is read; a name
with another one behind it ends right there. -/
theorem parse_splits_into_segments_recovering :
    ∃ ts entries, tokens "f = g(,) h x = \"a\" y z" = .ok ts ∧ ts.length = 12 ∧
      Segments "m" "f = g(,) h x = \"a\" y z" ts entries ∧
      (Parsed.ofEntries "m" entries).module.items = [⟨"x", .string "a"⟩] ∧
      (Parsed.ofEntries "m" entries).diagnostics =
        [.expectedExpression ⟨.punct .comma, ⟨6, 7⟩⟩,
          .unexpected (.punct .equal) ⟨.identifier "z", ⟨21, 22⟩⟩] := by
  obtain ⟨ts, htokens, hlength⟩ :
      ∃ ts, tokens "f = g(,) h x = \"a\" y z" = .ok ts ∧ ts.length = 12 :=
    Step.exists_ok_of_map (by decide +kernel)
  obtain ⟨entries, hsegments, hread⟩ := parse_splits_into_segments "m" htokens
  have hparse : parseModule 12 "m" "f = g(,) h x = \"a\" y z" = .ok ⟨⟨"m", [⟨"x", .string "a"⟩]⟩,
      [.expectedExpression ⟨.punct .comma, ⟨6, 7⟩⟩,
        .unexpected (.punct .equal) ⟨.identifier "z", ⟨21, 22⟩⟩]⟩ := by decide +kernel
  rw [(hread 12).2 (Nat.le_of_eq hlength), Except.ok.injEq] at hparse
  refine ⟨ts, entries, htokens, hlength, hsegments, ?_, ?_⟩
  · rw [hparse]
  · rw [hparse]

end QLanguage
