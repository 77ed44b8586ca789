import QLanguage.Token.Basic
import QLanguage.Text.Blank

/-!
# Cutting a source into lexemes

`cut` takes the longest lexeme off the front of the source, and `lexemes` does so until only blanks
remain. A string keeps its escapes as they stand: a backslash takes the next character with it,
whatever it is. A quotation mark that is never closed, and every other character that starts no
lexeme, is an invalid lexeme of one character. `cut_append` says that a cut loses nothing, so every
cut leaves a shorter rest and the cutting ends.

An integer lexeme of more than `digitLimit` digits is too long to be read as a number. It stays in
the list as a mark of its own, so that whoever reaches it can refuse it.
-/

namespace QLanguage

/-- Whether a character may stand in an identifier. -/
def isLetter (c : Char) : Bool := c == '_' || c.isAlpha

/-- The inside of a string whose opening mark has been read, and what follows its closing mark. -/
def closeString? : List Char → Option (List Char × List Char)
  | [] => none
  | '\x22' :: rest => some ([], rest)
  | ['\\'] => none
  | '\\' :: c :: rest =>
    match closeString? rest with
    | some (raw, rest) => some ('\\' :: c :: raw, rest)
    | none => none
  | c :: rest =>
    match closeString? rest with
    | some (raw, rest) => some (c :: raw, rest)
    | none => none

/-- A lexeme before its value is read. -/
structure Cut where
  /-- The kind of the lexeme. -/
  kind : Kind
  /-- The characters of the lexeme. -/
  text : List Char
  /-- The source behind it. -/
  rest : List Char
deriving Repr, DecidableEq

/-- Cuts an integer or, where no digit stands, an invalid character. -/
def cutInteger (c : Char) (cs : List Char) : Cut :=
  if c.isDigit then
    ⟨.integer, c :: cs.takeWhile Char.isDigit, cs.dropWhile Char.isDigit⟩
  else ⟨.invalid, [c], cs⟩

/-- Cuts a float where a point with digits behind it follows the digits, and else as
`cutInteger` does. -/
def cutNumber (c : Char) (cs : List Char) : Cut :=
  -- The digits before the point may be missing, those behind it may not.
  match (c :: cs).dropWhile Char.isDigit with
  | '.' :: more =>
    if (more.takeWhile Char.isDigit).isEmpty then cutInteger c cs
    else
      ⟨.float, (c :: cs).takeWhile Char.isDigit ++ '.' :: more.takeWhile Char.isDigit,
        more.dropWhile Char.isDigit⟩
  | _ => cutInteger c cs

/-- Cuts the lexeme that starts with `c` off the source `c :: cs`, where `c` is not blank. -/
def cut (c : Char) (cs : List Char) : Cut :=
  match Punct.ofChar? c with
  | some p => ⟨.punct p, [c], cs⟩
  | none =>
    if isLetter c then ⟨.identifier, c :: cs.takeWhile isLetter, cs.dropWhile isLetter⟩
    else if c == quotationMark then
      match closeString? cs with
      | some (raw, rest) => ⟨.string, c :: raw ++ [quotationMark], rest⟩
      | none => ⟨.invalid, [c], cs⟩
    else cutNumber c cs

/-- The inside of a string, its closing mark and the rest make up what was read. -/
theorem closeString?_append {cs raw rest : List Char} (h : closeString? cs = some (raw, rest)) :
    raw ++ quotationMark :: rest = cs := by
  fun_induction closeString? cs generalizing raw rest with
  | case1 => cases h
  | case2 rest' =>
    cases h
    rfl
  | case3 => cases h
  | case4 c tail raw' rest' htail ih =>
    cases h
    rw [List.cons_append, List.cons_append, ih htail]
  | case5 => cases h
  | case6 c tail _ _ _ raw' rest' htail ih =>
    cases h
    rw [List.cons_append, ih htail]
  | case7 => cases h

/-- Cutting an integer loses nothing. -/
theorem cutInteger_append (c : Char) (cs : List Char) :
    (cutInteger c cs).text ++ (cutInteger c cs).rest = c :: cs := by
  unfold cutInteger
  split
  · rw [List.cons_append, List.takeWhile_append_dropWhile]
  · rfl

/-- Cutting a number loses nothing. -/
theorem cutNumber_append (c : Char) (cs : List Char) :
    (cutNumber c cs).text ++ (cutNumber c cs).rest = c :: cs := by
  have hsplit : (c :: cs).takeWhile Char.isDigit ++ (c :: cs).dropWhile Char.isDigit = c :: cs :=
    List.takeWhile_append_dropWhile
  unfold cutNumber
  split
  · next more hbehind =>
    split
    · exact cutInteger_append c cs
    · rw [List.append_assoc, List.cons_append, List.takeWhile_append_dropWhile, ← hbehind, hsplit]
  · exact cutInteger_append c cs

/-- A cut number has a character. -/
theorem cutNumber_text_ne_nil (c : Char) (cs : List Char) : (cutNumber c cs).text ≠ [] := by
  have hinteger : (cutInteger c cs).text ≠ [] := by
    unfold cutInteger
    split <;> simp
  unfold cutNumber
  split
  · split
    · exact hinteger
    · simp
  · exact hinteger

/-- A cut loses nothing: the lexeme and the rest make up the source. -/
theorem cut_append (c : Char) (cs : List Char) : (cut c cs).text ++ (cut c cs).rest = c :: cs := by
  unfold cut
  split
  · rfl
  · split
    · rw [List.cons_append, List.takeWhile_append_dropWhile]
    · split
      · split
        · next raw rest hclose =>
          simp [closeString?_append hclose]
        · rfl
      · exact cutNumber_append c cs

/-- A cut lexeme has a character. -/
theorem cut_text_ne_nil (c : Char) (cs : List Char) : (cut c cs).text ≠ [] := by
  unfold cut
  split
  · simp
  · split
    · simp
    · split
      · split <;> simp
      · exact cutNumber_text_ne_nil c cs

/-- What a cut leaves is shorter than the source. -/
theorem cut_rest_length (c : Char) (cs : List Char) :
    (cut c cs).rest.length < (c :: cs).length := by
  have hlen := congrArg List.length (cut_append c cs)
  have hpos := List.length_pos_iff.mpr (cut_text_ne_nil c cs)
  rw [List.length_append] at hlen
  omega

/-- One entry of a source's list of lexemes. -/
inductive Lexed where
  /-- A token. -/
  | token (token : Token)
  /-- An integer lexeme of too many digits, zeros at its front counted. -/
  | overlong (digits : Nat) (span : Span)
deriving Repr, DecidableEq

/-- The float that the digits around a point denote. -/
def floatValue (text : List Char) : Binary64 :=
  let whole := text.takeWhile Char.isDigit
  let fraction := (text.dropWhile Char.isDigit).drop 1
  .ofDecimal false (digitsValue (whole ++ fraction)) (-(fraction.length : Int))

/-- Reads the value of a lexeme from its kind and its characters. -/
def Lexed.ofCut (kind : Kind) (text : List Char) (span : Span) : Lexed :=
  match kind with
  | .identifier => .token ⟨.identifier (String.ofList text), span⟩
  | .string => .token ⟨.string (String.ofList (text.drop 1).dropLast), span⟩
  | .float => .token ⟨.float (floatValue text), span⟩
  | .integer =>
    if text.length > digitLimit then .overlong text.length span
    else .token ⟨.integer (digitsValue text), span⟩
  | .punct p => .token ⟨.punct p, span⟩
  | _ => .token ⟨.invalid (String.ofList text), span⟩

/-- The lexemes of a source that starts at an offset. -/
def lexemesFrom (offset : Nat) : List Char → List Lexed
  | [] => []
  | c :: cs =>
    if isBlank c then lexemesFrom (offset + 1) cs
    else
      let stop := offset + (cut c cs).text.length
      Lexed.ofCut (cut c cs).kind (cut c cs).text ⟨(offset : Int), (stop : Int)⟩ ::
        lexemesFrom stop (cut c cs).rest
termination_by cs => cs.length
decreasing_by
  · simp
  · exact cut_rest_length c cs

/-- The lexemes of a source. -/
def lexemes (source : String) : List Lexed := lexemesFrom 0 source.toList

end QLanguage
