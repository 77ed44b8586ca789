import Mathlib.Data.List.Induction
import QLanguage.Proofs.Cutting.Scanning
import QLanguage.Proofs.Reading.Cursor

/-!
# Lexers are cursors over one list

Whatever is asked of a scanner, and of copies made of it on the way, each of them answers as a
cursor over the fixed list of lexemes of the source does (`ListCursor`), which knows only how many
lexemes are gone and which token was taken last. The way there has two steps, from scanners to the
cursors of `Token.Cursor` and from these to list cursors, and each is a simulation of the single
calls that carries over to every sequence of them. That a copy does not disturb the lexer it was
made from is a fact about groups of lexers of any kind: the state of each is known from the calls
that it has had itself, those before it was copied included (`lexersAfter_eq_map`).
-/

namespace QLanguage

open Step

/-! ## Calls and answers -/

/-- A call of a lexer. -/
inductive LexerCall where
  /-- To look at the next token. -/
  | peek
  /-- To take the next token. -/
  | next
  /-- To take the next token and to check its kind. -/
  | expect (kind : Kind)
  /-- To tell the span of the token taken last. -/
  | span
deriving DecidableEq

/-- What a lexer replies to a call that does not stop. -/
inductive LexerReply where
  /-- The token that was looked at, or `none` at the end of the source. -/
  | seen (token : Option Token)
  /-- The token that was taken. -/
  | taken (token : Token)
  /-- A span. -/
  | span (span : Span)
deriving DecidableEq

/-- What comes of a call: a reply, or the reason why the call stops. -/
abbrev LexerAnswer := Except Stop LexerReply

/-- The call of a scanner. -/
def LexerCall.scan : LexerCall → Scan LexerReply
  | .peek => do return .seen (← Scan.peek)
  | .next => do return .taken (← Scan.next)
  | .expect kind => do return .taken (← Scan.expect kind)
  | .span => do return .span (← get).span

/-- The call of a cursor that reads a source. -/
def LexerCall.read : LexerCall → Reading LexerReply
  | .peek => do return .seen (← Reading.peek)
  | .next => do return .taken (← Reading.next)
  | .expect kind => do return .taken (← Reading.expect kind)
  | .span => do return .span (← get).span

/-- A cursor over a list of lexemes. -/
structure ListCursor where
  /-- How many lexemes are gone. -/
  gone : Nat
  /-- The span of the token taken last. -/
  span : Span
deriving DecidableEq

/-- The cursor at the start of a list. -/
def ListCursor.start : ListCursor := ⟨0, .origin⟩

/-- The call of a cursor over the list of lexemes of a source of a given length. -/
def ListCursor.step (ls : List Lexed) (length : Nat) (call : LexerCall) :
    Step Stop ListCursor LexerReply := fun cursor =>
  match call, ls[cursor.gone]? with
  | .span, _ => (.ok (.span cursor.span), cursor)
  -- Whichever call comes to it first refuses an integer that is too long, and it is gone then.
  | _, some (.overlong digits _) => (.error (.overlong digits), ⟨cursor.gone + 1, cursor.span⟩)
  | .peek, none => (.ok (.seen none), cursor)
  | .peek, some (.token token) => (.ok (.seen (some token)), cursor)
  | .next, none => (.error (.diagnostic (.endOfInput (some (length : Int)))), cursor)
  | .next, some (.token token) => (.ok (.taken token), ⟨cursor.gone + 1, token.span⟩)
  | .expect _, none => (.error (.diagnostic (.endOfInput (some (length : Int)))), cursor)
  | .expect kind, some (.token token) =>
    (if token.kind = kind then .ok (.taken token)
      else .error (.diagnostic (.unexpected kind token)),
      ⟨cursor.gone + 1, token.span⟩)

/-! ## Sequences of calls -/

section Calls

variable {σ τ : Type} (step : LexerCall → Step Stop σ LexerReply)

/-- The state of a lexer after some calls, each made whatever came of those before. -/
def stateAfter (s : σ) (calls : List LexerCall) : σ :=
  calls.foldl (fun s call => ((step call).run s).2) s

/-- What comes of a call after some others. -/
def answerAfter (s : σ) (calls : List LexerCall) (call : LexerCall) : LexerAnswer :=
  ((step call).run (stateAfter step s calls)).1

/-- What comes of each of some calls in a row. -/
def answersTo : σ → List LexerCall → List LexerAnswer
  | _, [] => []
  | s, call :: calls => ((step call).run s).1 :: answersTo ((step call).run s).2 calls

/-- The last call is made from where the others have led. -/
theorem stateAfter_concat (s : σ) (calls : List LexerCall) (call : LexerCall) :
    stateAfter step s (calls ++ [call]) = ((step call).run (stateAfter step s calls)).2 := by
  rw [stateAfter, List.foldl_append]
  rfl

/-- Later calls go on from where earlier ones have led. -/
theorem stateAfter_append (s : σ) (calls later : List LexerCall) :
    stateAfter step s (calls ++ later) = stateAfter step (stateAfter step s calls) later :=
  List.foldl_append

/-- What comes of the last call comes last. -/
theorem answersTo_concat (s : σ) (calls : List LexerCall) (call : LexerCall) :
    answersTo step s (calls ++ [call]) =
      answersTo step s calls ++ [answerAfter step s calls call] := by
  induction calls generalizing s with
  | nil => rfl
  | cons first calls ih =>
    rw [List.cons_append, answersTo, ih, answersTo, List.cons_append]
    rfl

variable {step} {step' : LexerCall → Step Stop τ LexerReply} {view : σ → τ}

/-- Where each call simulates its counterpart, so do sequences of calls. -/
theorem stateAfter_of_simulates (h : ∀ call, Simulates view (step call) (step' call)) (s : σ)
    (calls : List LexerCall) :
    stateAfter step' (view s) calls = view (stateAfter step s calls) := by
  induction calls generalizing s with
  | nil => rfl
  | cons call calls ih =>
    have hcall := congrArg Prod.snd (h call s)
    change stateAfter step' ((step' call).run (view s)).2 calls = _
    rw [hcall, ih]
    rfl

/-- Where each call simulates its counterpart, the same comes of every call after others. -/
theorem answerAfter_of_simulates (h : ∀ call, Simulates view (step call) (step' call)) (s : σ)
    (calls : List LexerCall) (call : LexerCall) :
    answerAfter step' (view s) calls call = answerAfter step s calls call := by
  unfold answerAfter
  rw [stateAfter_of_simulates h, h call (stateAfter step s calls)]

/-- Where the same comes of every call after others, it comes of all calls in a row. -/
theorem answersTo_congr {s : σ} {t : τ}
    (h : ∀ calls call, answerAfter step s calls call = answerAfter step' t calls call)
    (calls : List LexerCall) : answersTo step s calls = answersTo step' t calls := by
  induction calls using List.reverseRecOn with
  | nil => rfl
  | append_singleton calls call ih => rw [answersTo_concat, answersTo_concat, ih, h]

end Calls

/-! ## Groups of lexers -/

/-- What is done with a group of lexers, which are known by number. -/
inductive LexerStep where
  /-- A call of one of them. -/
  | call (lexer : Nat) (call : LexerCall)
  /-- A copy of one of them, which joins the group. -/
  | copy (lexer : Nat)
deriving DecidableEq

/-- A group after one of its members has changed or has been copied. -/
def groupStep {α : Type} (change : LexerCall → α → α) (group : List α) : LexerStep → List α
  | .call lexer call => group.modify lexer (change call)
  | .copy lexer => group ++ group[lexer]?.toList

/-- The lexers after some steps that start with a single one. -/
def lexersAfter {σ : Type} (step : LexerCall → Step Stop σ LexerReply) (s : σ)
    (steps : List LexerStep) : List σ :=
  steps.foldl (groupStep fun call s => ((step call).run s).2) [s]

/-- The calls that each lexer has had after some steps. A copy has had those of the lexer that it
was made from. -/
def histories (steps : List LexerStep) : List (List LexerCall) :=
  steps.foldl (groupStep fun call calls => calls ++ [call]) [[]]

/-- What follows the changes of the members of a group follows the steps of the group. -/
theorem map_groupStep {α β : Type} {f : α → β} {change : LexerCall → α → α}
    {change' : LexerCall → β → β} (h : ∀ call a, f (change call a) = change' call (f a))
    (group : List α) (step : LexerStep) :
    (groupStep change group step).map f = groupStep change' (group.map f) step := by
  cases step with
  | call lexer call =>
    refine List.ext_getElem? fun i => ?_
    simp only [groupStep, List.getElem?_map, List.getElem?_modify, Option.map_eq_map,
      Option.map_map]
    congr 1
    funext a
    by_cases hi : lexer = i
    · simp [hi, h]
    · simp [hi]
  | copy lexer =>
    simp only [groupStep, List.map_append, List.getElem?_map]
    cases group[lexer]? <;> rfl

/-- The state of each lexer is known from the calls that it has had. -/
theorem lexersAfter_eq_map {σ : Type} (step : LexerCall → Step Stop σ LexerReply) (s : σ)
    (steps : List LexerStep) :
    lexersAfter step s steps = (histories steps).map (stateAfter step s) := by
  induction steps using List.reverseRecOn with
  | nil => rfl
  | append_singleton steps last ih =>
    have hlexers : lexersAfter step s (steps ++ [last]) =
        groupStep (fun call s => ((step call).run s).2) (lexersAfter step s steps) last := by
      rw [lexersAfter, List.foldl_append]
      rfl
    have hhistories : histories (steps ++ [last]) =
        groupStep (fun call calls => calls ++ [call]) (histories steps) last := by
      rw [histories, List.foldl_append]
      rfl
    rw [hlexers, hhistories, ih]
    exact (map_groupStep (fun call calls => stateAfter_concat step s calls call) _ last).symm

/-! ## From scanners to list cursors -/

/-- The calls of scanners simulate those of the cursors that they stand for. -/
theorem simulates_scan (call : LexerCall) : Simulates Scanner.cursor call.scan call.read := by
  cases call with
  | peek => exact Scan.simulates_peek.bind fun found => .pure (LexerReply.seen found)
  | next => exact Scan.simulates_next.bind fun token => .pure (LexerReply.taken token)
  | expect kind =>
    exact (Scan.simulates_expect kind).bind fun token => .pure (LexerReply.taken token)
  | span => exact fun s => rfl

/-- The cursor that a list cursor stands for has the lexemes left that are not gone. -/
def ListCursor.cursor (ls : List Lexed) (length : Nat) (c : ListCursor) : Cursor :=
  ⟨ls.drop c.gone, c.span, length⟩

/-- The calls of list cursors simulate those of the cursors that they stand for. -/
theorem ListCursor.simulates_step (ls : List Lexed) (length : Nat) (call : LexerCall) :
    Simulates (ListCursor.cursor ls length) (ListCursor.step ls length call) call.read := by
  rintro ⟨gone, span⟩
  have hleft : ls.drop gone = ls[gone]?.toList ++ ls.drop (gone + 1) :=
    List.drop_eq_getElem?_toList_append
  unfold ListCursor.step ListCursor.cursor run
  dsimp only
  -- The next lexeme is the first of those that are left, and decides in both.
  rcases hnext : ls[gone]? with _ | token | ⟨digits, place⟩ <;> rw [hnext] at hleft
  · have hend : ls.drop gone = [] := List.drop_eq_nil_iff.mpr (List.getElem?_eq_none_iff.mp hnext)
    cases call <;> dsimp only <;> rw [hend] <;> rfl
  · cases call with
    | expect kind =>
      dsimp only
      rw [hleft]
      by_cases hkind : token.kind = kind
      · rw [if_pos hkind]
        exact run_bind_ok (Reading.run_expect_token hkind _ span length)
      · rw [if_neg hkind]
        exact run_bind_error (Reading.run_expect_other hkind _ span length)
    | _ =>
      dsimp only
      rw [hleft]
      rfl
  · cases call <;> dsimp only <;> rw [hleft] <;> rfl

/-! ## What the calls have consumed -/

/-- The token that a call has consumed. A token of the wrong kind is consumed too. -/
def consumed? : LexerAnswer → Option Token
  | .ok (.taken token) => some token
  | .error (.diagnostic (.unexpected _ token)) => some token
  | _ => none

/-- The number of digits of the integer that a call has refused. -/
def refused? : LexerAnswer → Option Nat
  | .error (.overlong digits) => some digits
  | _ => none

/-- The token that a lexeme is. -/
def Lexed.token? : Lexed → Option Token
  | .token t => some t
  | .overlong _ _ => none

/-- The number of digits of an integer that is too long. -/
def Lexed.overlong? : Lexed → Option Nat
  | .token _ => none
  | .overlong digits _ => some digits

namespace ListCursor

variable {ls : List Lexed} {length : Nat} {c : ListCursor} {call : LexerCall}

/-- A call consumes the next token, or refuses the next lexeme, which is gone then, or changes
nothing. -/
theorem step_cases (ls : List Lexed) (length : Nat) (call : LexerCall) (c : ListCursor) :
    (∃ token, ls[c.gone]? = some (.token token) ∧
      consumed? ((step ls length call).run c).1 = some token ∧
      refused? ((step ls length call).run c).1 = none ∧
      ((step ls length call).run c).2 = ⟨c.gone + 1, token.span⟩) ∨
    (∃ digits place, ls[c.gone]? = some (.overlong digits place) ∧
      consumed? ((step ls length call).run c).1 = none ∧
      refused? ((step ls length call).run c).1 = some digits ∧
      ((step ls length call).run c).2 = ⟨c.gone + 1, c.span⟩) ∨
    consumed? ((step ls length call).run c).1 = none ∧
      refused? ((step ls length call).run c).1 = none ∧ ((step ls length call).run c).2 = c := by
  unfold step run
  dsimp only
  rcases ls[c.gone]? with _ | token | ⟨digits, place⟩
  · cases call <;> exact .inr (.inr ⟨rfl, rfl, rfl⟩)
  · cases call with
    | peek => exact .inr (.inr ⟨rfl, rfl, rfl⟩)
    | next => exact .inl ⟨token, rfl, rfl, rfl, rfl⟩
    | expect kind =>
      refine .inl ⟨token, rfl, ?_, ?_, rfl⟩ <;> dsimp only <;> split <;> rfl
    | span => exact .inr (.inr ⟨rfl, rfl, rfl⟩)
  · cases call with
    | span => exact .inr (.inr ⟨rfl, rfl, rfl⟩)
    | _ => exact .inr (.inl ⟨digits, place, rfl, rfl, rfl, rfl⟩)

/-- The tokens that were consumed and the integers that were refused are those of the lexemes that
are gone, and the span is that of the last token. -/
theorem account (ls : List Lexed) (length : Nat) (calls : List LexerCall) :
    (answersTo (step ls length) start calls).filterMap consumed? =
        (ls.take (stateAfter (step ls length) start calls).gone).filterMap Lexed.token? ∧
      (answersTo (step ls length) start calls).filterMap refused? =
        (ls.take (stateAfter (step ls length) start calls).gone).filterMap Lexed.overlong? ∧
      (stateAfter (step ls length) start calls).span =
        ((((answersTo (step ls length) start calls).filterMap consumed?).getLast?).map
          Token.span).getD .origin := by
  induction calls using List.reverseRecOn with
  | nil => exact ⟨rfl, rfl, rfl⟩
  | append_singleton calls call ih =>
    obtain ⟨hconsumed, hrefused, hspan⟩ := ih
    rw [answersTo_concat, stateAfter_concat, List.filterMap_append, List.filterMap_append]
    unfold answerAfter
    generalize stateAfter (step ls length) start calls = c at hconsumed hrefused hspan ⊢
    rcases step_cases ls length call c with ⟨token, hnext, hanswer, hpassed, hstate⟩ |
      ⟨digits, place, hnext, hanswer, hpassed, hstate⟩ | ⟨hanswer, hpassed, hstate⟩
    · have htake : ls.take (c.gone + 1) = ls.take c.gone ++ [.token token] := by
        rw [List.take_add_one, hnext]
        rfl
      rw [hstate]
      simp [htake, hanswer, hpassed, hconsumed, hrefused, Lexed.token?, Lexed.overlong?]
    · have htake : ls.take (c.gone + 1) = ls.take c.gone ++ [.overlong digits place] := by
        rw [List.take_add_one, hnext]
        rfl
      rw [hstate]
      simp [htake, hanswer, hpassed, hconsumed, hrefused, hspan, Lexed.token?, Lexed.overlong?]
    · rw [hstate]
      simp [hanswer, hpassed, hconsumed, hrefused, hspan]

/-- A look that is answered changes nothing. -/
theorem step_peek_of_ok {reply : LexerReply} (h : ((step ls length .peek).run c).1 = .ok reply) :
    ((step ls length .peek).run c).2 = c := by
  revert h
  unfold step run
  dsimp only
  rcases ls[c.gone]? with _ | token | ⟨digits, place⟩
  · exact fun _ => rfl
  · exact fun _ => rfl
  · exact fun h => nomatch h

end ListCursor

/-! ## The lexers of a source -/

/-- The calls of a cursor over the lexemes of a source. -/
def LexerCall.overList (source : String) : LexerCall → Step Stop ListCursor LexerReply :=
  ListCursor.step (lexemes source) source.length

/-- What comes of a call of a lexer of a source after some others. -/
def lexerAnswer (source : String) : List LexerCall → LexerCall → LexerAnswer :=
  answerAfter LexerCall.scan (Scanner.ofSource source)

/-- What comes of each of some calls in a row of a lexer of a source. -/
def lexerAnswers (source : String) : List LexerCall → List LexerAnswer :=
  answersTo LexerCall.scan (Scanner.ofSource source)

/-- A cursor that reads a source answers as one over its lexemes. -/
theorem answerAfter_read (source : String) (calls : List LexerCall) (call : LexerCall) :
    answerAfter LexerCall.read (Cursor.ofSource source) calls call =
      answerAfter (LexerCall.overList source) .start calls call :=
  answerAfter_of_simulates (ListCursor.simulates_step (lexemes source) source.length) .start calls
    call

/-- A scanner of a source answers as a cursor over its lexemes. -/
theorem lexerAnswer_eq (source : String) (calls : List LexerCall) (call : LexerCall) :
    lexerAnswer source calls call = answerAfter (LexerCall.overList source) .start calls call := by
  rw [← answerAfter_read, ← Scanner.cursor_ofSource]
  exact (answerAfter_of_simulates simulates_scan (Scanner.ofSource source) calls call).symm

/-- Each of the lexers of a source, copies included, answers as a cursor over the fixed list of its
lexemes that has had the same calls, and so does the cursor that reads the source. What the calls
have consumed and refused are the tokens and the integers that are too long among the first so many
lexemes, each of them once and in order, and the span is that of the last token consumed. A look
that is answered may be left out, or put in, without a change of what comes of later calls. -/
theorem lexers_are_list_cursors (source : String) :
    (∀ steps call, (lexersAfter LexerCall.scan (Scanner.ofSource source) steps).map
        (fun lexer => (call.scan.run lexer).1) =
      (histories steps).map fun calls =>
        answerAfter (LexerCall.overList source) .start calls call) ∧
    (∀ calls call, answerAfter LexerCall.read (Cursor.ofSource source) calls call =
      answerAfter (LexerCall.overList source) .start calls call) ∧
    (∀ calls, ∃ n,
      (lexerAnswers source calls).filterMap consumed? =
        ((lexemes source).take n).filterMap Lexed.token? ∧
      (lexerAnswers source calls).filterMap refused? =
        ((lexemes source).take n).filterMap Lexed.overlong? ∧
      lexerAnswer source calls .span = .ok (.span
        (((((lexemes source).take n).filterMap Lexed.token?).getLast?).map
          Token.span |>.getD .origin))) ∧
    ∀ before later call reply, lexerAnswer source before .peek = .ok reply →
      lexerAnswer source (before ++ .peek :: later) call =
        lexerAnswer source (before ++ later) call := by
  refine ⟨fun steps call => ?_, answerAfter_read source, fun calls => ?_,
    fun before later call reply hpeek => ?_⟩
  · rw [lexersAfter_eq_map, List.map_map]
    exact List.map_congr_left fun calls _ => lexerAnswer_eq source calls call
  · have hanswers : lexerAnswers source calls =
        answersTo (LexerCall.overList source) .start calls :=
      answersTo_congr (lexerAnswer_eq source) calls
    obtain ⟨hconsumed, hrefused, hspan⟩ :=
      ListCursor.account (lexemes source) source.length calls
    refine ⟨(stateAfter (LexerCall.overList source) .start calls).gone, ?_, ?_, ?_⟩
    · rw [hanswers]
      exact hconsumed
    · rw [hanswers]
      exact hrefused
    · rw [lexerAnswer_eq]
      rw [hconsumed] at hspan
      exact congrArg (fun span => Except.ok (LexerReply.span span)) hspan
  · rw [lexerAnswer_eq] at hpeek ⊢
    rw [lexerAnswer_eq]
    have hstay := ListCursor.step_peek_of_ok hpeek
    have hstate : stateAfter (LexerCall.overList source) .start (before ++ .peek :: later) =
        stateAfter (LexerCall.overList source) .start (before ++ later) := by
      calc stateAfter (LexerCall.overList source) .start (before ++ .peek :: later)
          = stateAfter (LexerCall.overList source)
              (stateAfter (LexerCall.overList source) .start (before ++ [.peek])) later := by
            rw [List.append_cons, stateAfter_append]
        _ = stateAfter (LexerCall.overList source)
              (stateAfter (LexerCall.overList source) .start before) later := by
            rw [stateAfter_concat]
            exact congrArg (stateAfter (LexerCall.overList source) · later) hstay
        _ = stateAfter (LexerCall.overList source) .start (before ++ later) :=
            (stateAfter_append (LexerCall.overList source) .start before later).symm
    unfold answerAfter
    rw [hstate]

/-- A look ahead on a copy leaves the lexer at the name, whatever the copy has taken since, and a
look more or less before that makes no difference. -/
theorem lexers_are_list_cursors_copied :
    (lexersAfter LexerCall.scan (Scanner.ofSource "a = 1")
        [.call 0 .peek, .copy 0, .call 1 .next, .call 1 (.expect .identifier)]).map
          (fun lexer => (LexerCall.next.scan.run lexer).1) =
      [.ok (.taken ⟨.identifier "a", ⟨0, 1⟩⟩), .ok (.taken ⟨.integer 1, ⟨4, 5⟩⟩)] ∧
    lexerAnswer "a = 1" [.next] .peek = .ok (.seen (some ⟨.punct .equal, ⟨2, 3⟩⟩)) ∧
    lexerAnswer "a = 1" [.next, .peek, .next] .span = lexerAnswer "a = 1" [.next, .next] .span := by
  have hlexemes : lexemes "a = 1" = [.token ⟨.identifier "a", ⟨0, 1⟩⟩,
      .token ⟨.punct .equal, ⟨2, 3⟩⟩, .token ⟨.integer 1, ⟨4, 5⟩⟩] := by decide +kernel
  obtain ⟨hanswers, -, -, hpeek⟩ := lexers_are_list_cursors "a = 1"
  have hseen : lexerAnswer "a = 1" [.next] .peek =
      .ok (.seen (some ⟨.punct .equal, ⟨2, 3⟩⟩)) := by
    rw [lexerAnswer_eq, LexerCall.overList, hlexemes]
    rfl
  refine ⟨?_, hseen, hpeek [.next] [.next] .span _ hseen⟩
  rw [hanswers, LexerCall.overList, hlexemes]
  rfl

end QLanguage
