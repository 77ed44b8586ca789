import QLanguage.Proofs.Cutting.Tiling
import QLanguage.Proofs.Reading.Enough
import QLanguage.Proofs.Reading.Loops

/-!
# How the reading of a module ends

Every loop of the reader makes finitely many passes, so with levels enough the reading of a module
comes to an end. A diagnostic never gets out of it, since each declaration is recorded. What is left
is the first integer of the source that is too long: the reading takes every lexeme, looks at it or
looks past the name in front of it, so it cannot miss that integer, and it stops at no other one.
-/

namespace QLanguage

/-! ## Integers that are too long -/

namespace Lexed

/-- The kind of a lexeme. Only an integer can be too long. -/
def kind : Lexed → Kind
  | .token t => t.kind
  | .overlong _ _ => .integer

/-- The place of a lexeme in its source. -/
def span : Lexed → Span
  | .token t => t.span
  | .overlong _ span => span

/-- A lexeme of a source is an integer of more digits than can be read. -/
def TooLong (source : String) (l : Lexed) : Prop :=
  l.kind = .integer ∧ digitLimit < (l.span.slice source).length

instance (source : String) : DecidablePred (TooLong source) :=
  fun l => inferInstanceAs (Decidable (l.kind = .integer ∧ _))

/-- A cut is marked as too long if it is an integer of too many digits. -/
theorem ofCut_eq_overlong_iff {kind : Kind} {text : List Char} {span place : Span} {digits : Nat} :
    ofCut kind text span = .overlong digits place ↔
      (kind = .integer ∧ digitLimit < text.length) ∧ digits = text.length ∧ place = span := by
  cases kind with
  | integer =>
    rw [ofCut]
    split
    · next hlong => simp [hlong, eq_comm]
    · next hshort => simp [hshort]
  | _ => simp [ofCut]

/-- A lexeme that is read from a cut has its kind and its place. -/
theorem kind_span_ofCut (c : Char) (cs : List Char) (span : Span) :
    (ofCut (cut c cs).kind (cut c cs).text span).kind = (cut c cs).kind ∧
      (ofCut (cut c cs).kind (cut c cs).text span).span = span := by
  cases hcut : ofCut (cut c cs).kind (cut c cs).text span with
  | token t =>
    obtain ⟨hspan, hkind, -⟩ := ofCut_denotes hcut
    exact ⟨hkind, hspan⟩
  | overlong digits place =>
    obtain ⟨⟨hkind, -⟩, -, hspan⟩ := ofCut_eq_overlong_iff.mp hcut
    exact ⟨hkind.symm, hspan⟩

/-- A lexeme is an integer that is too long and marked with the number of its digits, or it is a
token. -/
theorem marked_or_token {source : String} {offset : Nat} {cs : List Char} {l : Lexed}
    (hdrop : source.toList.drop offset = cs) (hl : l ∈ lexemesFrom offset cs) :
    l.TooLong source ∧ l = .overlong (l.span.slice source).length l.span ∨
      ¬l.TooLong source ∧ ∃ t, l = .token t := by
  fun_induction lexemesFrom offset cs with
  | case1 offset => cases hl
  | case2 offset c cs hblank ih =>
    refine ih ?_ hl
    rw [← List.drop_drop, hdrop, List.drop_one, List.tail_cons]
  | @case3 offset c cs hblank stop ih =>
    rcases List.mem_cons.mp hl with rfl | hl
    · obtain ⟨hkind, hspan⟩ := kind_span_ofCut c cs ⟨(offset : ℤ), (stop : ℤ)⟩
      rw [TooLong, hkind, hspan, slice_of_cut hdrop]
      by_cases hlong : (cut c cs).kind = .integer ∧ digitLimit < (cut c cs).text.length
      · exact .inl ⟨hlong, ofCut_eq_overlong_iff.mpr ⟨hlong, rfl, rfl⟩⟩
      · refine .inr ⟨hlong, ?_⟩
        cases hcut : ofCut (cut c cs).kind (cut c cs).text ⟨(offset : ℤ), (stop : ℤ)⟩ with
        | token t => exact ⟨t, rfl⟩
        | overlong digits place => exact absurd (ofCut_eq_overlong_iff.mp hcut).1 hlong
    · exact ih (drop_of_cut hdrop) hl

/-- No token of a source is too long. -/
theorem not_tooLong_token {source : String} {t : Token} (ht : .token t ∈ lexemes source) :
    ¬(Lexed.token t).TooLong source := by
  rcases marked_or_token List.drop_zero ht with ⟨-, hmark⟩ | ⟨hshort, -⟩
  · cases hmark
  · exact hshort

/-- Where a source goes through tokens up to an integer that is marked as too long, that integer is
the first that is, and it is marked with the number of its digits. -/
theorem find?_tooLong {source : String} {ts : List Token} {digits : Nat} {place : Span}
    {rest : List Lexed} (h : lexemes source = ts.map .token ++ .overlong digits place :: rest) :
    (lexemes source).find? (fun l => l.TooLong source) = some (.overlong digits place) ∧
      digits = (place.slice source).length := by
  have hmem : ∀ l ∈ ts.map .token ++ .overlong digits place :: rest, l ∈ lexemes source := by
    simp [h]
  rcases marked_or_token List.drop_zero (hmem _ List.mem_append_cons_self) with
    ⟨hlong, hmark⟩ | ⟨-, t, ht⟩
  · refine ⟨?_, (Lexed.overlong.inj hmark).1⟩
    refine List.find?_eq_some_iff_append.mpr ⟨decide_eq_true hlong, ts.map .token, rest, h, ?_⟩
    intro l hl
    have hl' := hmem l (List.mem_append_left _ hl)
    obtain ⟨t, -, rfl⟩ := List.mem_map.mp hl
    simpa using not_tooLong_token hl'
  · cases ht

end Lexed

/-! ## Passes over declarations -/

namespace Reading

variable {depth : Nat} {sourceName source : String} {c c' : Cursor}

/-- The loop over declarations ends at the end of the source. -/
theorem run_entryPass_none (h : (entryPass depth sourceName source).run c = (.ok none, c')) :
    c'.rest = [] := by
  obtain ⟨found, mid, hpeek, h⟩ := Step.run_bind_eq_ok_iff.mp h
  cases found with
  | none =>
    cases h
    cases run_peek_ok hpeek
    exact run_peek_none hpeek
  | some t =>
    obtain ⟨_, _, -, h⟩ := Step.run_bind_eq_ok_iff.mp h
    cases h

/-- A recorded reading stops for no diagnostic. -/
theorem run_recorded_ne_diagnostic {α : Type} (reading : Reading α) (c : Cursor) (d : Diagnostic) :
    ((recorded reading).run c).1 ≠ .error (.diagnostic d) := by
  unfold recorded
  rw [Step.run_tryCatch, Step.run_bind]
  rcases reading.run c with ⟨(_ | _ | _) | _, _⟩ <;> nofun

/-- No diagnostic of a declaration stops the loop over them. -/
theorem run_entryPass_ne_diagnostic (d : Diagnostic) :
    (entryPass depth sourceName source).run c ≠ (.error (.diagnostic d), c') := by
  obtain ⟨_ | ⟨t | ⟨digits, place⟩, rest⟩, span, length⟩ := c
  · nofun
  · unfold entryPass
    rw [Step.run_bind_ok (run_peek_token t rest span length)]
    have hentry := run_recorded_ne_diagnostic (declaration depth sourceName source)
      ⟨.token t :: rest, span, length⟩ d
    dsimp only
    rcases hrun : (recorded (declaration depth sourceName source)).run
      ⟨.token t :: rest, span, length⟩ with ⟨stop | entry, mid⟩
    · rw [Step.run_bind_error hrun]
      rw [hrun] at hentry
      intro h
      cases h
      exact hentry rfl
    · rw [Step.run_bind_ok hrun]
      nofun
  · nofun

/-- Where a reading of at most `depth` levels makes passes of a loop, it makes finitely many. -/
structure LoopsEnd (depth : Nat) (sourceName source : String) : Prop where
  /-- The loop over declarations. -/
  entries : entries depth sourceName source = passes (entryPass depth sourceName source) ∧
    PassesEnd (entryPass depth sourceName source)
  /-- The loop over the tokens that recovery skips. -/
  skipping : (skipToDeclaration = do
      let _ ← passes skipPass
      return ()) ∧
    PassesEnd skipPass
  /-- The loop over patterns. -/
  patterns : (row .comma pattern = do
      let first ← pattern
      return first :: (← passes (itemPass .comma pattern))) ∧
    PassesEnd (itemPass .comma pattern)
  /-- The loop over arguments. -/
  arguments : (row .comma (expression depth) = do
      let first ← expression depth
      return first :: (← passes (itemPass .comma (expression depth)))) ∧
    PassesEnd (itemPass .comma (expression depth))
  /-- The loop over clauses. -/
  clauses : (function (expression depth) = do
      let first ← clause (expression depth)
      return .function first (← passes (itemPass .semicolon (do
        let _ ← expect (.punct .openParen)
        clause (expression depth))))) ∧
    PassesEnd (itemPass .semicolon (do
      let _ ← expect (.punct .openParen)
      clause (expression depth)))

/-- Every loop of a reading ends. -/
theorem loopsEnd (depth : Nat) (sourceName source : String) : LoopsEnd depth sourceName source where
  entries := ⟨entries_eq, shortens_entryPass.passesEnd⟩
  skipping := ⟨skipToDeclaration_eq, shortens_skipPass.passesEnd⟩
  patterns := ⟨row_eq, (shortens_itemPass keeps_pattern).passesEnd⟩
  arguments := ⟨row_eq, (shortens_itemPass (keeps_expression depth)).passesEnd⟩
  clauses := by
    refine ⟨function_eq _, (shortens_itemPass ?_).passesEnd⟩
    exact Step.Keeps.bind (keeps_expect _) fun _ => keeps_clause (keeps_expression depth)

end Reading

/-! ## Modules -/

section Modules

variable {depth : Nat} {source : String}

/-- With levels enough, a module is read where all lexemes are tokens, and else the first integer
that is too long is refused. -/
theorem parseModule_outcome (name : String) (h : (lexemes source).length ≤ depth) :
    (∃ (ts : List Token) (parsed : Parsed),
      lexemes source = ts.map .token ∧ parseModule depth name source = .ok parsed) ∨
    ∃ (ts : List Token) (digits : Nat) (place : Span) (rest : List Lexed),
      lexemes source = ts.map .token ++ .overlong digits place :: rest ∧
        parseModule depth name source = .error (.overlong digits) := by
  obtain ⟨hentries, hends⟩ := (Reading.loopsEnd depth name source).entries
  have hruns := hends (.ofSource source)
  rw [← hentries] at hruns
  have haccounts : (Cursor.ofSource source).Accounts
      ((Reading.entries depth name source).run (.ofSource source)).2
      ((Reading.entries depth name source).run (.ofSource source)).1 :=
    Reading.settles_entriesWithin name source h (lexemes source).length (.ofSource source)
      (Nat.le_refl (lexemes source).length)
  unfold parseModule
  rcases hrun : (Reading.entries depth name source).run (.ofSource source) with
    ⟨(d | digits | _) | entries, last⟩ <;> rw [hrun] at hruns haccounts
  · obtain ⟨last', hlast⟩ := hruns.exists_stop
    exact absurd hlast (Reading.run_entryPass_ne_diagnostic d)
  · obtain ⟨ts, place, rest, hrest⟩ := haccounts
    exact .inr ⟨ts, digits, place, rest, hrest, rfl⟩
  · exact haccounts.elim
  · obtain ⟨ts, hmoves, -⟩ := haccounts
    obtain ⟨last', hlast⟩ := hruns.exists_done
    rw [Reading.run_entryPass_none hlast, List.append_nil] at hmoves
    exact .inl ⟨ts, _, hmoves, rfl⟩

/-- The reading of a module always ends. Every loop in it makes finitely many passes, it nests no
more levels than the source has lexemes, and with the levels it needs it stops only where the source
has an integer that is too long: then for the first of those, wherever it stands, and with the
number of its digits. A source without one is read as a module. -/
theorem parseModule_ends (name source : String) :
    (∀ depth, Reading.LoopsEnd depth name source) ∧
    (∀ depth, (lexemes source).length ≤ depth →
      parseModule depth name source ≠ .error .tooDeep) ∧
    ∀ depth, parseModule depth name source ≠ .error .tooDeep →
      ((∃ stop, parseModule depth name source = .error stop) ↔
        ∃ l ∈ lexemes source, l.TooLong source) ∧
      (∀ l, (lexemes source).find? (fun l => l.TooLong source) = some l →
        parseModule depth name source = .error (.overlong (l.span.slice source).length)) ∧
      ((∀ l ∈ lexemes source, ¬l.TooLong source) →
        ∃ parsed, parseModule depth name source = .ok parsed) := by
  refine ⟨fun depth => Reading.loopsEnd depth name source, fun depth h => ?_, fun depth h => ?_⟩
  · rcases parseModule_outcome name h with ⟨_, _, -, hparse⟩ | ⟨_, _, _, _, -, hparse⟩ <;>
      simp [hparse]
  · -- Fewer levels that suffice do what enough levels do.
    rw [(parseModule_tooDeep_or (Nat.le_max_left depth (lexemes source).length) name
      source).resolve_left h]
    rcases parseModule_outcome name (Nat.le_max_right depth (lexemes source).length) with
      ⟨ts, parsed, hlexemes, hparse⟩ | ⟨ts, digits, place, rest, hlexemes, hparse⟩
    · have hnone : ∀ l ∈ lexemes source, ¬l.TooLong source := by
        intro l hl
        obtain ⟨t, -, rfl⟩ := List.mem_map.mp (hlexemes ▸ hl)
        exact Lexed.not_tooLong_token hl
      have hfind : (lexemes source).find? (fun l => l.TooLong source) = none :=
        List.find?_eq_none.mpr fun l hl => by simpa using hnone l hl
      refine ⟨?_, fun l hl => ?_, fun _ => ⟨parsed, hparse⟩⟩
      · simpa [hparse] using hnone
      · rw [hfind] at hl
        cases hl
    · obtain ⟨hfirst, hdigits⟩ := Lexed.find?_tooLong hlexemes
      have hl := List.mem_of_find?_eq_some hfirst
      have htooLong : (Lexed.overlong digits place).TooLong source := by
        simpa using List.find?_some hfirst
      refine ⟨iff_of_true ⟨_, hparse⟩ ⟨_, hl, htooLong⟩, fun l h => ?_, fun hnone => ?_⟩
      · obtain rfl := Option.some.inj (hfirst.symm.trans h)
        rw [hparse, hdigits]
        rfl
      · exact absurd htooLong (hnone _ hl)

/-- A row of zeros is one integer. -/
theorem lexemesFrom_zeros (offset n : Nat) (h : digitLimit ≤ n) :
    lexemesFrom offset (List.replicate (n + 1) '0') =
      [.overlong (n + 1) ⟨offset, ((offset + (n + 1) : Nat) : Int)⟩] := by
  have htake : ('0' :: List.replicate n '0').takeWhile Char.isDigit = List.replicate (n + 1) '0' :=
    List.takeWhile_eq_self_iff.mpr (by simp [← List.replicate_succ, List.mem_replicate])
  have hdrop : ('0' :: List.replicate n '0').dropWhile Char.isDigit = [] :=
    List.dropWhile_eq_nil_iff.mpr (by simp [← List.replicate_succ, List.mem_replicate])
  have hcut : cut '0' (List.replicate n '0') = ⟨.integer, List.replicate (n + 1) '0', []⟩ := by
    rw [cut_number (.inl rfl)]
    rcases cutNumber_digit (List.replicate n '0') (c := '0') rfl with hcut | ⟨more, hmore, -⟩
    · rw [hcut, htake, hdrop]
    · rw [hdrop] at hmore
      cases hmore
  rw [List.replicate_succ, lexemesFrom, if_neg (by decide), hcut]
  dsimp only
  rw [lexemesFrom, Lexed.ofCut_eq_overlong_iff.mpr
    ⟨⟨rfl, by rw [List.length_replicate]; exact Nat.lt_succ_of_le h⟩, rfl, rfl⟩,
    List.length_replicate]

/-- An integer that recovery meets in looking past a name is refused, also if it is all zeros. -/
theorem parseModule_ends_zeros :
    parseModule 3 "m" (String.ofList ('=' :: ' ' :: 'x' :: ' ' :: List.replicate 4301 '0')) =
      .error (.overlong 4301) := by
  have hfront : ∀ cs, lexemesFrom 0 ('=' :: ' ' :: 'x' :: ' ' :: cs) =
      [⟨.punct .equal, ⟨0, 1⟩⟩, ⟨.identifier "x", ⟨2, 3⟩⟩].map .token ++ lexemesFrom 4 cs := by
    intro cs
    rw [lexemesFrom, if_neg (by decide)]
    change _ :: lexemesFrom 1 (' ' :: 'x' :: ' ' :: cs) = _
    rw [lexemesFrom, if_pos (by decide), lexemesFrom, if_neg (by decide)]
    change _ :: _ :: lexemesFrom 3 (' ' :: cs) = _
    rw [lexemesFrom, if_pos (by decide)]
    rfl
  have hlexemes : lexemes (String.ofList ('=' :: ' ' :: 'x' :: ' ' :: List.replicate 4301 '0')) =
      [⟨.punct .equal, ⟨0, 1⟩⟩, ⟨.identifier "x", ⟨2, 3⟩⟩].map .token ++
        [.overlong 4301 ⟨4, 4305⟩] := by
    rw [lexemes, String.toList_ofList, hfront, lexemesFrom_zeros 4 4300 (Nat.le_refl digitLimit)]
    rfl
  obtain ⟨hfirst, hdigits⟩ := Lexed.find?_tooLong hlexemes
  obtain ⟨-, henough, hends⟩ := parseModule_ends "m"
    (String.ofList ('=' :: ' ' :: 'x' :: ' ' :: List.replicate 4301 '0'))
  have hlevels := henough 3 (by rw [hlexemes]; decide)
  rw [(hends 3 hlevels).2.1 _ hfirst]
  exact congrArg (fun digits => Except.error (Stop.overlong digits)) hdigits.symm

end Modules

end QLanguage
