import QLanguage.Proofs.WellFormed

/-!
# What the lexemes of a source look like

A lexeme that was cut from a source has the shape of its kind: an identifier is a word, and the
inside of a string closes where it ends. None of them is a lexeme that a caller made, so the kind of
a lexeme tells the lexeme wherever only punctuation is at stake.
-/

namespace QLanguage

/-- Whether a lexeme can be cut from a source. -/
def Lexeme.inSource : Lexeme → Bool
  | .identifier name => isName name
  | .string raw => isRaw raw.toList
  | .other _ _ => false
  | .integer _ | .float _ | .punct _ | .invalid _ => true

/-- In a source, only a punctuation mark is of the kind of that mark. -/
theorem Lexeme.kind_eq_punct_iff {l : Lexeme} (h : l.inSource = true) (p : Punct) :
    l.kind = .punct p ↔ l = .punct p := by
  cases l with
  | other label text => cases h
  | _ => simp [Lexeme.kind]

/-- In a source, only an identifier is of that kind. -/
theorem Lexeme.kind_eq_identifier_iff {l : Lexeme} (h : l.inSource = true) :
    l.kind = .identifier ↔ ∃ name, l = .identifier name := by
  cases l with
  | other label text => cases h
  | _ => simp [Lexeme.kind]

/-! ## The inside of strings -/

/-- A character that is neither a quotation mark nor a backslash stands in a string as it is. -/
theorem isRaw_cons {c : Char} (hmark : c ≠ '\x22') (hslash : c ≠ '\\') (cs : List Char) :
    isRaw (c :: cs) = isRaw cs := by
  rw [isRaw]
  · exact fun h => hmark h
  · exact fun h _ => hslash h
  · exact fun _ _ h _ => hslash h

/-- A character that neither is a last backslash nor has a character behind it as a backslash has is
no backslash. -/
theorem ne_backslash {c : Char} {tail : List Char} (hlast : c = '\\' → tail = [] → False)
    (hescape : ∀ d more, c = '\\' → tail = d :: more → False) : c ≠ '\\' := by
  rintro rfl
  cases tail with
  | nil => exact hlast rfl rfl
  | cons d more => exact hescape d more rfl rfl

/-- What closes a string leaves its inside raw. -/
theorem isRaw_of_closeString? {cs raw rest : List Char} (h : closeString? cs = some (raw, rest)) :
    isRaw raw = true := by
  fun_induction closeString? cs generalizing raw rest with
  | case1 => cases h
  | case2 tail =>
    cases h
    rfl
  | case3 => cases h
  | case4 c tail raw' rest' htail ih =>
    cases h
    rw [isRaw]
    exact ih htail
  | case5 => cases h
  | case6 c tail hmark hlast hslash raw' rest' htail ih =>
    cases h
    have hc : c ≠ '\\' := ne_backslash hlast hslash
    rw [isRaw_cons hmark hc]
    exact ih htail
  | case7 => cases h

/-- A raw inside is closed by the first quotation mark behind it. -/
theorem closeString?_of_isRaw {raw : List Char} (h : isRaw raw = true) (rest : List Char) :
    closeString? (raw ++ quotationMark :: rest) = some (raw, rest) := by
  fun_induction isRaw raw with
  | case1 => rfl
  | case2 => cases h
  | case3 => cases h
  | case4 c tail ih =>
    rw [List.cons_append, List.cons_append, closeString?, ih h]
  | case5 c tail hmark hlast hslash ih =>
    have hc : c ≠ '\\' := ne_backslash hlast hslash
    rw [List.cons_append, closeString?, ih h]
    · exact fun h => hmark h
    · exact fun h _ => hc h
    · exact fun _ _ h _ => hc h

/-! ## Cut lexemes -/

/-- A word that starts with a letter goes on with letters. -/
theorem isName_takeWhile {c : Char} (h : isLetter c = true) (cs : List Char) :
    isName (String.ofList (c :: cs.takeWhile isLetter)) = true := by
  simp [isName, h]

/-- A cut of an integer gives a lexeme that can be cut from a source, unless it is too long. -/
theorem ofCut_cutInteger_inSource {c : Char} {cs : List Char} {span : Span} {token : Token}
    (h : Lexed.ofCut (cutInteger c cs).kind (cutInteger c cs).text span = .token token) :
    token.lexeme.inSource = true := by
  unfold cutInteger at h
  split at h
  · unfold Lexed.ofCut at h
    dsimp only at h
    split at h
    · cases h
    · cases h
      rfl
  · cases h
    rfl

/-- A cut of a number gives a lexeme that can be cut from a source. -/
theorem ofCut_cutNumber_inSource {c : Char} {cs : List Char} {span : Span} {token : Token}
    (h : Lexed.ofCut (cutNumber c cs).kind (cutNumber c cs).text span = .token token) :
    token.lexeme.inSource = true := by
  unfold cutNumber at h
  split at h
  · split at h
    · exact ofCut_cutInteger_inSource h
    · cases h
      rfl
  · exact ofCut_cutInteger_inSource h

/-- A cut gives a lexeme that can be cut from a source. -/
theorem ofCut_cut_inSource {c : Char} {cs : List Char} {span : Span} {token : Token}
    (h : Lexed.ofCut (cut c cs).kind (cut c cs).text span = .token token) :
    token.lexeme.inSource = true := by
  -- A cut makes a punctuation mark, a word, a string, or a number.
  unfold cut at h
  split at h
  · cases h
    rfl
  · split at h
    · next hletter =>
      cases h
      exact isName_takeWhile hletter cs
    · split at h
      · split at h
        · next raw rest hclose =>
          cases h
          have hraw := isRaw_of_closeString? hclose
          simpa [Lexeme.inSource] using hraw
        · -- A string that is not closed is an invalid character.
          cases h
          rfl
      · exact ofCut_cutNumber_inSource h

/-- The tokens of a source can be cut from it. -/
theorem inSource_of_mem_lexemesFrom {offset : Nat} {cs : List Char} {token : Token}
    (h : Lexed.token token ∈ lexemesFrom offset cs) : token.lexeme.inSource = true := by
  fun_induction lexemesFrom offset cs with
  | case1 => cases h
  | case2 offset c cs hblank ih => exact ih h
  | case3 offset c cs hblank stop ih =>
    rcases List.mem_cons.mp h with hhead | htail
    · exact ofCut_cut_inSource hhead.symm
    · exact ih htail

end QLanguage
