import QLanguage.Proofs.Steps
import QLanguage.Token.Scanner

/-!
# Scanners stand for cursors

A scanner has a token that was looked at, or none, and characters that have not been cut. The cursor
that it stands for (`Scanner.cursor`) has that token and the lexemes of those characters left.
Cutting a token takes the first of these lexemes away, wherever blanks stand (`run_cutToken`), so
every step of a scanner does to its cursor what the step of the same name does there.
-/

namespace QLanguage

open Step

/-! ## Cutting the next token -/

/-- Blanks in front of a source are no lexemes. -/
theorem lexemesFrom_dropWhile (offset : Nat) (cs : List Char) :
    lexemesFrom (offset + (cs.takeWhile isBlank).length) (cs.dropWhile isBlank) =
      lexemesFrom offset cs := by
  induction cs generalizing offset with
  | nil => rfl
  | cons c cs ih =>
    by_cases hblank : isBlank c = true
    · rw [List.takeWhile_cons_of_pos hblank, List.dropWhile_cons_of_pos hblank, List.length_cons,
        Nat.add_comm _ 1, ← Nat.add_assoc, ih, lexemesFrom, if_pos hblank]
    · rw [List.takeWhile_cons_of_neg hblank, List.dropWhile_cons_of_neg hblank]
      rfl

namespace Scanner

/-- The lexemes of the characters that have not been cut. -/
def uncut (s : Scanner) : List Lexed := lexemesFrom s.position s.ahead

/-- The cursor that a scanner stands for. -/
def cursor (s : Scanner) : Cursor :=
  { rest := (s.peeked.map Lexed.token).toList ++ s.uncut
    span := s.span
    length := s.source.length }

/-- At the start of a source a scanner stands for the cursor there. -/
theorem cursor_ofSource (source : String) : (ofSource source).cursor = Cursor.ofSource source := rfl

end Scanner

namespace Scan

/-- Behind a front part of what is ahead stands the rest of it. -/
theorem drop_behind {s : Scanner} {front rest : List Char} (h : s.ahead = front ++ rest) :
    s.source.toList.drop (s.position + front.length) = rest := by
  rw [← List.drop_drop]
  change s.ahead.drop front.length = rest
  rw [h, List.drop_left]

/-- Cutting a token takes the first lexeme off those that are uncut, and answers what it is. -/
theorem run_cutToken (s : Scanner) : ∃ position,
    ({ s with position := position } : Scanner).uncut = s.uncut.tail ∧
      cutToken.run s =
        (match s.uncut with
          | [] => .ok none
          | .token token :: _ => .ok (some token)
          | .overlong digits _ :: _ => .error (.overlong digits),
        { s with position := position }) := by
  have huncut : s.uncut = lexemesFrom (s.position + (s.ahead.takeWhile isBlank).length)
      (s.ahead.dropWhile isBlank) := (lexemesFrom_dropWhile s.position s.ahead).symm
  have hsplit : s.ahead = s.ahead.takeWhile isBlank ++ s.ahead.dropWhile isBlank :=
    List.takeWhile_append_dropWhile.symm
  have hfirst := List.head?_dropWhile_not isBlank s.ahead
  rcases hrest : s.ahead.dropWhile isBlank with _ | ⟨c, cs⟩ <;> rw [hrest] at huncut hsplit hfirst
  · have hnil : s.uncut = [] := by
      rw [huncut, lexemesFrom]
    refine ⟨s.position + (s.ahead.takeWhile isBlank).length, ?_, ?_⟩
    · change lexemesFrom _ (s.source.toList.drop _) = _
      rw [drop_behind hsplit, hnil, lexemesFrom]
      rfl
    · unfold cutToken
      rw [run_bind_ok (run_get s), hnil]
      dsimp only
      rw [hrest]
      rfl
  · have hblank : ¬isBlank c = true := by simpa using hfirst
    rw [lexemesFrom, if_neg hblank] at huncut
    dsimp only at huncut
    refine ⟨s.position + (s.ahead.takeWhile isBlank).length + (cut c cs).text.length, ?_, ?_⟩
    · have hbehind : s.ahead =
          (s.ahead.takeWhile isBlank ++ (cut c cs).text) ++ (cut c cs).rest := by
        rw [List.append_assoc, cut_append]
        exact hsplit
      have hdrop := drop_behind hbehind
      rw [List.length_append, ← Nat.add_assoc] at hdrop
      change lexemesFrom _ (s.source.toList.drop _) = _
      rw [hdrop, huncut]
      rfl
    · unfold cutToken
      rw [run_bind_ok (run_get s), huncut]
      dsimp only
      rw [hrest]
      dsimp only
      rw [run_bind_ok (run_set _ s)]
      rcases Lexed.ofCut _ _ _ with token | ⟨digits, place⟩ <;> rfl

/-! ## Each step does to the cursor what its counterpart does -/

/-- Looking at the next token. -/
theorem simulates_peek : Simulates Scanner.cursor peek Reading.peek := by
  rintro ⟨source, position, _ | token, span⟩
  · obtain ⟨position', htail, hcut⟩ := run_cutToken ⟨source, position, none, span⟩
    have hpeek : peek.run ⟨source, position, none, span⟩ = (do
        let found ← cutToken
        modify fun scanner => { scanner with peeked := found }
        return found : Scan (Option Token)).run ⟨source, position, none, span⟩ := rfl
    have hbefore : Scanner.cursor ⟨source, position, none, span⟩ =
        ⟨(⟨source, position, none, span⟩ : Scanner).uncut, span, source.length⟩ := rfl
    have hafter : ∀ kept : Option Token, Scanner.cursor ⟨source, position', kept, span⟩ =
        ⟨(kept.map Lexed.token).toList ++ (⟨source, position, none, span⟩ : Scanner).uncut.tail,
          span, source.length⟩ := by
      intro kept
      rw [← htail]
      rfl
    rw [hpeek, hbefore]
    -- What is cut, or refused, is the first of the lexemes that the cursor has left.
    generalize (⟨source, position, none, span⟩ : Scanner).uncut = uncut at hafter hcut
    rcases uncut with _ | ⟨token | ⟨digits, place⟩, rest⟩
    · rw [run_bind_ok hcut]
      exact congrArg (Prod.mk _) (hafter none).symm
    · rw [run_bind_ok hcut]
      exact congrArg (Prod.mk _) (hafter (some token)).symm
    · rw [run_bind_error hcut]
      exact congrArg (Prod.mk _) (hafter none).symm
  · rfl

/-- A token that was looked at is kept. -/
theorem peeked_of_run_peek {s t : Scanner} {token : Token}
    (h : peek.run s = (.ok (some token), t)) : t.peeked = some token := by
  obtain ⟨source, position, _ | kept, span⟩ := s
  · obtain ⟨found, mid, -, hkeep⟩ := run_bind_eq_ok_iff.mp
      (show (do
        let found ← cutToken
        modify fun scanner => { scanner with peeked := found }
        return found : Scan (Option Token)).run ⟨source, position, none, span⟩ = _ from h)
    cases hkeep
    rfl
  · cases h
    rfl

/-- Taking the next token. -/
theorem simulates_next : Simulates Scanner.cursor next Reading.next := by
  intro s
  have hpeek := simulates_peek s
  unfold next Reading.next
  rcases hrun : peek.run s with ⟨stop | _ | token, t⟩ <;> rw [hrun] at hpeek
  · rw [run_bind_error hpeek, run_bind_error hrun]
  · rw [run_bind_ok hpeek, run_bind_ok hrun]
    rfl
  · rw [run_bind_ok hpeek, run_bind_ok hrun]
    obtain ⟨source, position, kept, span⟩ := t
    obtain rfl : kept = some token := peeked_of_run_peek hrun
    rfl

/-- Taking the next token and checking its kind. -/
theorem simulates_expect (kind : Kind) :
    Simulates Scanner.cursor (expect kind) (Reading.expect kind) := by
  refine simulates_next.bind fun token => ?_
  by_cases hkind : token.kind = kind
  · rw [if_pos hkind, if_pos hkind]
    exact .pure token
  · rw [if_neg hkind, if_neg hkind]
    exact .throw _

/-- Taking up to a number of tokens. -/
theorem simulates_takeUpTo (n : Nat) :
    Simulates Scanner.cursor (takeUpTo n) (Reading.takeUpTo n) := by
  induction n with
  | zero => exact .pure []
  | succ n ih =>
    refine simulates_peek.bind fun found => ?_
    cases found with
    | none => exact .pure []
    | some _ => exact simulates_next.bind fun token => ih.bind fun more => .pure (token :: more)

end Scan

/-! ## All tokens of a source -/

/-- A source has no more lexemes than characters. -/
theorem length_lexemesFrom_le (offset : Nat) (cs : List Char) :
    (lexemesFrom offset cs).length ≤ cs.length := by
  fun_induction lexemesFrom offset cs with
  | case1 => exact Nat.le_refl 0
  | case2 offset c cs hblank ih => exact Nat.le_succ_of_le ih
  | case3 offset c cs hblank stop ih =>
    have hshorter := cut_rest_length c cs
    rw [List.length_cons]
    omega

/-- Nothing is behind the end of the source, so it does not matter how many tokens more may be
taken. -/
theorem Reading.run_takeUpTo_of_le {c : Cursor} {n : Nat} (h : c.rest.length ≤ n) :
    (takeUpTo n).run c = (takeUpTo c.rest.length).run c := by
  induction n generalizing c with
  | zero => rw [Nat.le_zero.mp h]
  | succ n ih =>
    obtain ⟨_ | ⟨token | ⟨digits, place⟩, rest⟩, span, length⟩ := c
    · rfl
    · have hrest : rest.length ≤ n := Nat.le_of_succ_le_succ h
      have hmore := ih (c := ⟨rest, token.span, length⟩) hrest
      rw [List.length_cons]
      unfold takeUpTo
      rw [run_bind_ok (run_peek_token token rest span length),
        run_bind_ok (run_peek_token token rest span length)]
      dsimp only
      rw [run_bind_ok (run_next_token token rest span length),
        run_bind_ok (run_next_token token rest span length), run_bind, run_bind, hmore]
    · rfl

/-- A scanner that goes through a source takes the tokens that a cursor takes, and is stopped by the
same integer. -/
theorem Scan.run_takeAll (source : String) :
    (takeAll.run (Scanner.ofSource source)).1 = tokens source := by
  have hlength : (Cursor.ofSource source).rest.length ≤ source.length + 1 := by
    have hle := length_lexemesFrom_le 0 source.toList
    rw [String.length_toList] at hle
    exact Nat.le_succ_of_le hle
  have hsame := simulates_takeUpTo (source.length + 1) (Scanner.ofSource source)
  rw [Scanner.cursor_ofSource, Reading.run_takeUpTo_of_le hlength] at hsame
  exact (congrArg Prod.fst hsame).symm

end QLanguage
