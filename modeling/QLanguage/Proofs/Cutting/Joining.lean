import QLanguage.Proofs.Lexing

/-!
# Lexemes of joined sources

Cutting looks no further than the end of the lexeme that it cuts, but for a string that is never
closed, and a character that stands in no word and in no number ends every other lexeme
(`cut_append_ending`). So where every lexeme of a source is valid, a line break behind the source
ends its last lexeme, and what comes behind the line break is cut as if it stood alone, at another
offset (`lexemes_joined`).
-/

namespace QLanguage

/-! ## Moved lexemes -/

/-- The stretch that lies further behind. -/
def Span.moved (distance : Nat) (span : Span) : Span :=
  ⟨span.start + distance, span.stop + distance⟩

/-- The same lexeme further behind. -/
def Token.moved (distance : Nat) (token : Token) : Token :=
  ⟨token.lexeme, token.span.moved distance⟩

/-- The same lexeme, or integer that is too long, further behind. -/
def Lexed.moved (distance : Nat) : Lexed → Lexed
  | .token t => .token (t.moved distance)
  | .overlong digits span => .overlong digits (span.moved distance)

/-- What is read from a cut does not depend on where it stands. -/
theorem Lexed.ofCut_moved (distance : Nat) (kind : Kind) (text : List Char) (span : Span) :
    Lexed.ofCut kind text (span.moved distance) = (Lexed.ofCut kind text span).moved distance := by
  cases kind with
  | integer =>
    dsimp only [Lexed.ofCut]
    split <;> rfl
  | _ => rfl

/-- A source that starts further behind has its lexemes further behind. -/
theorem lexemesFrom_add (distance offset : Nat) (cs : List Char) :
    lexemesFrom (offset + distance) cs = (lexemesFrom offset cs).map (Lexed.moved distance) := by
  fun_induction lexemesFrom offset cs with
  | case1 => rw [lexemesFrom, List.map_nil]
  | case2 offset c cs hblank ih =>
    rw [lexemesFrom, if_pos hblank, Nat.add_right_comm, ih]
  | case3 offset c cs hblank stop ih =>
    have hstop : offset + distance + (cut c cs).text.length = stop + distance := by omega
    have hspan : (⟨(offset + distance : Nat), (stop + distance : Nat)⟩ : Span) =
        Span.moved distance ⟨offset, stop⟩ := by
      simp [Span.moved]
    rw [lexemesFrom, if_neg hblank]
    dsimp only
    rw [hstop, hspan, Lexed.ofCut_moved, ih, List.map_cons]

/-- Tokens further behind are tokens. -/
theorem map_moved_token (distance : Nat) (ts : List Token) :
    (ts.map Lexed.token).map (Lexed.moved distance) =
      (ts.map (Token.moved distance)).map Lexed.token := by
  rw [List.map_map, List.map_map]
  rfl

/-! ## A character that ends lexemes -/

/-- The character stands in no word and in no number, so that it ends both. -/
structure EndsLexemes (b : Char) : Prop where
  /-- It is no letter. -/
  letter : isLetter b = false
  /-- It is no digit. -/
  digit : b.isDigit = false
  /-- It is no point. -/
  point : b ≠ '.'

/-- A line break ends words and numbers. -/
theorem endsLexemes_newline : EndsLexemes '\n' := ⟨by decide, by decide, by decide⟩

section

variable {c b : Char} {cs : List Char} (more : List Char)

/-- A row of characters with a property ends at one that lacks it. -/
theorem takeWhile_append_ending (cs : List Char) {p : Char → Bool} (hp : p b = false) :
    (cs ++ b :: more).takeWhile p = cs.takeWhile p ∧
      (cs ++ b :: more).dropWhile p = cs.dropWhile p ++ b :: more := by
  induction cs with
  | nil => simp [hp]
  | cons c cs ih =>
    cases hc : p c with
    | true => simpa [hc] using ih
    | false => simp [hc]

/-- A string that is closed is closed whatever follows. -/
theorem closeString?_append_of_some {raw rest : List Char}
    (h : closeString? cs = some (raw, rest)) :
    closeString? (cs ++ more) = some (raw, rest ++ more) := by
  have hraw := closeString?_of_isRaw (isRaw_of_closeString? h) (rest ++ more)
  rw [← closeString?_append h, List.append_assoc, List.cons_append]
  exact hraw

/-- Such a character ends an integer. -/
theorem cutInteger_append_ending (hb : EndsLexemes b) (c : Char) (cs : List Char) :
    cutInteger c (cs ++ b :: more) =
      { cutInteger c cs with rest := (cutInteger c cs).rest ++ b :: more } := by
  obtain ⟨htake, hdrop⟩ := takeWhile_append_ending more cs hb.digit
  unfold cutInteger
  rw [htake, hdrop]
  split <;> rfl

/-- Where a point follows the digits, those behind it decide. -/
theorem cutNumber_of_point {digits : List Char}
    (h : (c :: cs).dropWhile Char.isDigit = '.' :: digits) :
    cutNumber c cs =
      if (digits.takeWhile Char.isDigit).isEmpty then cutInteger c cs
      else
        ⟨.float, (c :: cs).takeWhile Char.isDigit ++ '.' :: digits.takeWhile Char.isDigit,
          digits.dropWhile Char.isDigit⟩ := by
  unfold cutNumber
  rw [h]
  rfl

/-- Where no point follows the digits, they are cut as an integer. -/
theorem cutNumber_of_no_point (h : ∀ digits, (c :: cs).dropWhile Char.isDigit ≠ '.' :: digits) :
    cutNumber c cs = cutInteger c cs := by
  unfold cutNumber
  split
  · next digits hdigits => exact absurd hdigits (h digits)
  · rfl

/-- Such a character ends a number. -/
theorem cutNumber_append_ending (hb : EndsLexemes b) (c : Char) (cs : List Char) :
    cutNumber c (cs ++ b :: more) =
      { cutNumber c cs with rest := (cutNumber c cs).rest ++ b :: more } := by
  obtain ⟨htake, hdrop⟩ := takeWhile_append_ending more (c :: cs) hb.digit
  rw [List.cons_append] at htake hdrop
  by_cases hpoint : ∃ digits, (c :: cs).dropWhile Char.isDigit = '.' :: digits
  · obtain ⟨digits, hdigits⟩ := hpoint
    obtain ⟨htake', hdrop'⟩ := takeWhile_append_ending more digits hb.digit
    rw [hdigits, List.cons_append] at hdrop
    rw [cutNumber_of_point hdigits, cutNumber_of_point hdrop, htake, htake', hdrop']
    split
    · exact cutInteger_append_ending more hb c cs
    · rfl
  · have hnone : ∀ digits, (c :: cs).dropWhile Char.isDigit ≠ '.' :: digits :=
      fun digits hdigits => hpoint ⟨digits, hdigits⟩
    rw [cutNumber_of_no_point hnone, cutNumber_of_no_point, cutInteger_append_ending more hb]
    intro digits hdigits
    rw [hdrop] at hdigits
    rcases hbehind : (c :: cs).dropWhile Char.isDigit with _ | ⟨mark, others⟩ <;>
      rw [hbehind] at hdigits
    · exact hb.point (List.cons.inj hdigits).1
    · cases hdigits
      exact hnone others hbehind

/-- Such a character ends every lexeme but a string that is not closed. -/
theorem cut_append_ending (hb : EndsLexemes b)
    (hclosed : c = quotationMark → closeString? cs ≠ none) :
    cut c (cs ++ b :: more) = { cut c cs with rest := (cut c cs).rest ++ b :: more } := by
  obtain ⟨htake, hdrop⟩ := takeWhile_append_ending more cs hb.letter
  unfold cut
  rw [htake, hdrop]
  rcases Punct.ofChar? c with _ | p
  · dsimp only
    split
    · rfl
    · split
      · next hmark =>
        obtain ⟨⟨raw, rest⟩, hclose⟩ :=
          Option.ne_none_iff_exists'.1 (hclosed (beq_iff_eq.1 hmark))
        rw [closeString?_append_of_some (b :: more) hclose, hclose]
      · exact cutNumber_append_ending more hb c cs
  · rfl

end

/-! ## Joined sources -/

/-- Behind a source all of whose lexemes are valid, a line break starts the cutting anew. -/
theorem lexemesFrom_append_newline {offset : Nat} {cs : List Char}
    (hvalid : ∀ t text, Lexed.token t ∈ lexemesFrom offset cs → t.lexeme ≠ .invalid text)
    (more : List Char) :
    lexemesFrom offset (cs ++ '\n' :: more) =
      lexemesFrom offset cs ++ lexemesFrom (offset + cs.length + 1) more := by
  fun_induction lexemesFrom offset cs with
  | case1 offset =>
    have hblank : isBlank '\n' = true := by decide
    rw [List.nil_append, lexemesFrom, if_pos hblank]
    rfl
  | case2 offset c cs hblank ih =>
    rw [List.cons_append, lexemesFrom, if_pos hblank, ih hvalid, List.length_cons]
    congr 2
    omega
  | case3 offset c cs hblank stop ih =>
    have hclosed : c = quotationMark → closeString? cs ≠ none := by
      intro hmark hnone
      have hcut : cut c cs = ⟨.invalid, [c], cs⟩ := by
        rw [hmark, cut, hnone]
        rfl
      have hmem : Lexed.token ⟨.invalid (String.ofList [c]), ⟨offset, stop⟩⟩ ∈
          Lexed.ofCut (cut c cs).kind (cut c cs).text ⟨offset, stop⟩ ::
            lexemesFrom stop (cut c cs).rest := by
        rw [hcut]
        exact List.mem_cons_self
      exact hvalid _ _ hmem rfl
    have hlength : stop + (cut c cs).rest.length = offset + (c :: cs).length := by
      rw [← cut_append c cs, List.length_append]
      omega
    rw [List.cons_append, lexemesFrom, if_neg hblank,
      cut_append_ending more endsLexemes_newline hclosed]
    dsimp only
    rw [ih fun t text ht => hvalid t text (List.mem_cons_of_mem _ ht), hlength, List.cons_append]

/-- The lexemes of two sources with a line break between them are those of both, where the first has
no invalid lexeme. -/
theorem lexemes_joined {a : String}
    (hvalid : ∀ t text, Lexed.token t ∈ lexemes a → t.lexeme ≠ .invalid text) (b : String) :
    lexemes (a ++ "\n" ++ b) = lexemes a ++ (lexemes b).map (Lexed.moved (a.length + 1)) := by
  have hjoined : (a ++ "\n" ++ b).toList = a.toList ++ '\n' :: b.toList := by
    simp
  rw [lexemes, hjoined, lexemesFrom_append_newline hvalid, String.length_toList, Nat.add_assoc,
    lexemesFrom_add]
  rfl

end QLanguage
